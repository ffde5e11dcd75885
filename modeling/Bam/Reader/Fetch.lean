import Bam.Reader.RegionViewer

set_option autoImplicit false

/- `IndexedReader::fetch_by` and `fetch` of src/src/bam_reader.rs (lines 357-395), and what
`IndexedReaderBuilder` decides before it opens the files (lines 118-212). `header.rs`,
`index.rs` and `bgzip.rs` are not under src/: the reference length, the chunk stream over
`index.fetch_chunks` and the modification times of the two files are parameters. -/
namespace Bam

/-- `x as i32` for a `u32` value `x`. -/
def toI32 (x : Nat) : Int := if x < 2147483648 then x else (x : Int) - 4294967296

theorem toI32_of_lt {x : Nat} (fits : x < 2147483648) : toI32 x = x := if_pos fits

namespace IndexedReader

variable (referenceLen : Nat → Option Nat) (chunks : Nat → Int → Int → List Fill)

/-- `fetch_by`: `referenceLen` is `header.reference_len`, and `chunks ref_id start end` what
the chunk reader over `index.fetch_chunks(ref_id, start, end)` delivers. -/
def fetchBy (refId start stop : Nat) (predicate : Record → Bool) : Except IoError RegionViewer :=
  if start > stop then
    .error ⟨.invalidInput, s!"Failed to fetch records: start > end ({start} > {stop})"⟩
  else
    match referenceLen refId with
    | none =>
      .error ⟨.invalidInput, s!"Failed to fetch records: out of bounds reference {refId}"⟩
    | some len =>
      if len < stop then
        .error ⟨.invalidInput,
          s!"Failed to fetch records: end > reference length ({stop} > {len})"⟩
      else
        .ok { chunksReader := chunks refId (toI32 start) (toI32 stop), start := toI32 start,
              stop := toI32 stop, predicate }

def fetch (refId start stop : Nat) : Except IoError RegionViewer :=
  fetchBy referenceLen chunks refId start stop fun _ => true

/-- `fetch_by` fails exactly on a failed check, with `InvalidInput` and the message of the first:
`start > end`, then the reference, then its length. -/
theorem fetchBy_error (refId start stop : Nat) (predicate : Record → Bool) (err : IoError) :
    fetchBy referenceLen chunks refId start stop predicate = .error err ↔
      (stop < start ∧ err =
          ⟨.invalidInput, s!"Failed to fetch records: start > end ({start} > {stop})"⟩) ∨
        (start ≤ stop ∧ referenceLen refId = none ∧ err =
          ⟨.invalidInput, s!"Failed to fetch records: out of bounds reference {refId}"⟩) ∨
        (start ≤ stop ∧ ∃ len, referenceLen refId = some len ∧ len < stop ∧
          err = ⟨.invalidInput,
            s!"Failed to fetch records: end > reference length ({stop} > {len})"⟩) := by
  unfold fetchBy
  by_cases reversed : start > stop
  · simp only [if_pos reversed, Except.error.injEq]
    constructor
    · exact fun found => .inl ⟨reversed, found.symm⟩
    · rintro (⟨-, rfl⟩ | ⟨ordered, -⟩ | ⟨ordered, -⟩) <;> first | rfl | omega
  · have ordered : start ≤ stop := by omega
    simp only [if_neg reversed, ordered, true_and, show ¬ stop < start by omega, false_and,
      false_or]
    cases known : referenceLen refId with
    | none => simp [eq_comm]
    | some len =>
      by_cases short : len < stop
      · simp [short, eq_comm]
      · simp [short]

/-- Scenario S3: `fetch(0, 200, 100)` fails with `InvalidInput`. -/
example : fetch (fun _ => some 1000) (fun _ _ _ => []) 0 200 100 =
    .error ⟨.invalidInput, "Failed to fetch records: start > end (200 > 100)"⟩ := by
  rfl

/-- For `start <= end <= reference_len(ref_id)`, `fetch_by` returns a viewer over the region, whose
calls return the kept records the test of `read_into` selects. -/
theorem fetchBy_yields (maxBin : Nat) (binToRegion : Nat → Int × Int)
    (lengths : ∀ id len, referenceLen id = some len → len < 2147483648)
    {refId start stop len : Nat} {predicate : Record → Bool} {records : List Record}
    (ordered : start ≤ stop) (known : referenceLen refId = some len) (within : stop ≤ len)
    (fills : chunks refId start stop = records.map .ok)
    (sorted : (records.filter (·.mapped)).Pairwise fun a b => a.start ≤ b.start)
    (binned : ∀ r ∈ records, r.mapped → r.bin ≤ maxBin) :
    ∃ v, fetchBy referenceLen chunks refId start stop predicate = .ok v ∧
      ∀ results, RegionViewer.Yields maxBin binToRegion v results ↔
        results = (records.filter fun r => r.mapped && predicate r && decide (r.start < stop) &&
          (decide (start ≤ (binToRegion r.bin).1 ∧ (binToRegion r.bin).2 ≤ stop) ||
            decide (start < r.calculateEnd))).map .ok := by
  have bound := lengths refId len known
  have start_eq := toI32_of_lt (x := start) (by omega)
  have stop_eq := toI32_of_lt (x := stop) (by omega)
  refine ⟨⟨chunks refId start stop, start, stop, predicate⟩, ?_, fun results => ?_⟩
  · simp [fetchBy, known, start_eq, stop_eq, show ¬ stop < start by omega,
      show ¬ len < stop by omega]
  · have selects : ∀ {results}, RegionViewer.Yields maxBin binToRegion
        ⟨chunks refId start stop, start, stop, predicate⟩ results →
        results = (records.filter (RegionViewer.selected binToRegion
          ⟨chunks refId start stop, start, stop, predicate⟩)).map .ok := fun yields => by
      rw [RegionViewer.yields_outcomes maxBin binToRegion yields,
        ← RegionViewer.outcomes_selected maxBin binToRegion _ sorted binned, ← fills]
    constructor
    · exact fun yields => selects yields
    · rintro rfl
      obtain ⟨found, yields⟩ := RegionViewer.yields_exists maxBin binToRegion
        ⟨chunks refId start stop, start, stop, predicate⟩
      rw [selects yields] at yields
      exact yields

theorem fetchBy_yields_s1 :
    ∃ v, fetchBy (fun id => if id = 0 then some 100000 else none)
        (fun _ _ _ => RegionViewer.viewerS1.chunksReader) 0 0 16384 (fun _ => true) = .ok v ∧
      RegionViewer.Yields RegionViewer.maxBinSpec RegionViewer.binToRegionSpec v
        [.ok RegionViewer.recordS1, .ok RegionViewer.recordAcrossBin] := by
  obtain ⟨v, fetched, yields⟩ := @fetchBy_yields (fun id => if id = 0 then some 100000 else none)
    (fun _ _ _ => RegionViewer.viewerS1.chunksReader) RegionViewer.maxBinSpec
    RegionViewer.binToRegionSpec (fun id len known => by
      simp only at known
      split at known
      · cases known
        decide
      · cases known) 0 0 16384 100000 (fun _ => true)
    [RegionViewer.recordS1, RegionViewer.recordAcrossBin, RegionViewer.recordPastEnd,
      RegionViewer.recordFarPastEnd] (by decide) rfl (by decide) rfl (by decide) (by decide)
  exact ⟨v, fetched, (yields _).mpr rfl⟩

end IndexedReader

/-- `ModificationTime`; the function of `Warn` is modelled by the warnings passed to it. -/
inductive ModificationTime
  | error | ignore | warn
deriving DecidableEq, Repr

/-- `ModificationTime::check`, the modification times of the two files given, `none` where unknown:
the warnings it passes to `Warn`. -/
def ModificationTime.check (policy : ModificationTime) (bamModified baiModified : Option Nat) :
    Except IoError (List String) :=
  let bamYounger := match bamModified, baiModified with
    | some bamTime, some baiTime => decide (baiTime < bamTime)
    | _, _ => false
  if !bamYounger then .ok []
  else
    match policy with
    | .ignore => .ok []
    | .error => .error ⟨.invalidInput, "the BAM file is younger than the BAI index"⟩
    | .warn => .ok ["the BAM file is younger than the BAI index"]

theorem ModificationTime.check_eq_error (policy : ModificationTime)
    (bamModified baiModified : Option Nat) (err : IoError) :
    policy.check bamModified baiModified = .error err ↔
      policy = .error ∧ err = ⟨.invalidInput, "the BAM file is younger than the BAI index"⟩ ∧
        ∃ bamTime baiTime, bamModified = some bamTime ∧ baiModified = some baiTime ∧
          baiTime < bamTime := by
  unfold check
  cases bamModified <;> cases baiModified
  case some.some bamTime baiTime =>
    by_cases younger : baiTime < bamTime <;> cases policy <;> simp [younger, eq_comm]
  all_goals cases policy <;> simp

structure IndexedReaderBuilder where
  cacheCapacity : Option Nat
  baiPath : Option String
  modificationTime : ModificationTime

namespace IndexedReaderBuilder

def new : IndexedReaderBuilder := ⟨none, none, .error⟩

/-- `bai_path`. -/
def setBaiPath (b : IndexedReaderBuilder) (path : String) : IndexedReaderBuilder :=
  { b with baiPath := some path }

/-- `modification_time`. -/
def setModificationTime (b : IndexedReaderBuilder) (modificationTime : ModificationTime) :
    IndexedReaderBuilder :=
  { b with modificationTime }

/-- `cache_capacity`, whose assertion panics on a zero capacity. -/
def setCacheCapacity (b : IndexedReaderBuilder) (cacheCapacity : Nat) :
    Except String IndexedReaderBuilder :=
  if cacheCapacity > 0 then .ok { b with cacheCapacity := some cacheCapacity }
  else .error "Cache size must be non-zero"

/-- `from_path` up to the opening of the files: the BAI path, the one set or `{bam_path}.bai`, and
the warnings of the check. -/
def fromPathCheck (b : IndexedReaderBuilder) (bamPath : String) (modified : String → Option Nat) :
    Except IoError (String × List String) :=
  let baiPath := b.baiPath.getD (bamPath ++ ".bai")
  (b.modificationTime.check (modified bamPath) (modified baiPath)).map (baiPath, ·)

/-- The builders that calls of the setters from `new` reach. -/
inductive Configured : IndexedReaderBuilder → Prop
  | new : Configured new
  | baiPath {b : IndexedReaderBuilder} (path : String) : Configured b →
      Configured (b.setBaiPath path)
  | modificationTime {b : IndexedReaderBuilder} (policy : ModificationTime) : Configured b →
      Configured (b.setModificationTime policy)
  | cacheCapacity {b b' : IndexedReaderBuilder} (capacity : Nat) : Configured b →
      b.setCacheCapacity capacity = .ok b' → Configured b'

theorem Configured.cacheCapacity_pos {b : IndexedReaderBuilder} (configured : Configured b) :
    ∀ capacity, b.cacheCapacity = some capacity → 0 < capacity := by
  induction configured with
  | new => rintro _ ⟨⟩
  | baiPath _ _ ih => exact ih
  | modificationTime _ _ ih => exact ih
  | cacheCapacity capacity _ set _ =>
    unfold setCacheCapacity at set
    split at set
    · cases set
      rintro _ ⟨⟩
      assumption
    · cases set

end IndexedReaderBuilder

end Bam
