import Bam.Record

set_option autoImplicit false

/- `RegionViewer` of src/src/bam_reader.rs (lines 56-116), a filter over what its chunk
reader delivers. `index::MAX_BIN` and `index::bin_to_region` live in `index.rs`, which is not
under src/: the functions take them as parameters. The chunk reader is the list of what
`fill_from` returns on its successive calls, its end being `NoMoreRecords`. -/
namespace Bam

/-- `record::Error`, as far as the readers return it. -/
inductive RecordError
  | noMoreRecords
  | corrupted (msg : String)
  | truncated (msg : String)
deriving DecidableEq, Repr

/-- What one call of `record.fill_from(&mut chunks_reader)` gives. -/
abbrev Fill := Except RecordError Record

/-- A `RegionViewer`: the fills its chunk reader has left, the window `[start, end)` (`stop`
is the source's `end`) and the predicate. -/
structure RegionViewer where
  chunksReader : List Fill
  start : Int
  stop : Int
  predicate : Record → Bool

namespace RegionViewer

variable (maxBin : Nat) (binToRegion : Nat → Int × Int)

/-- The `loop` of `read_into` over the fills left: what it returns, with the fills after. -/
def readInto (v : RegionViewer) : List Fill → Except RecordError Record × List Fill
  | [] => (.error .noMoreRecords, [])
  | .error e :: rest => (.error e, rest)
  | .ok record :: rest =>
    if !record.mapped then readInto v rest
    else if record.start ≥ v.stop then (.error .noMoreRecords, rest)
    else if !v.predicate record then readInto v rest
    else if record.bin > maxBin then
      (.error (.corrupted "Read has BAI bin bigger than max possible value"), rest)
    else if (binToRegion record.bin).1 ≥ v.start ∧ (binToRegion record.bin).2 ≤ v.stop then
      (.ok record, rest)
    else
      let recordEnd := record.calculateEnd
      if recordEnd ≠ -1 ∧ recordEnd < record.start then
        (.error (.corrupted "aln_end < aln_start"), rest)
      else if recordEnd > v.start then (.ok record, rest)
      else readInto v rest

/-- `Iterator::next`: `None` on `NoMoreRecords`; with the viewer after the call. -/
def next (v : RegionViewer) : Option (Except RecordError Record) × RegionViewer :=
  match readInto maxBin binToRegion v v.chunksReader with
  | (.ok record, rest) => (some (.ok record), { v with chunksReader := rest })
  | (.error .noMoreRecords, rest) => (none, { v with chunksReader := rest })
  | (.error e, rest) => (some (.error e), { v with chunksReader := rest })

/-- What `read_into` makes of one fill: `none` when it reads on, else what it returns. -/
def verdict (v : RegionViewer) : Fill → Option (Except RecordError Record)
  | .error e => some (.error e)
  | .ok record =>
    if !record.mapped then none
    else if record.start ≥ v.stop then some (.error .noMoreRecords)
    else if !v.predicate record then none
    else if record.bin > maxBin then
      some (.error (.corrupted "Read has BAI bin bigger than max possible value"))
    else if (binToRegion record.bin).1 ≥ v.start ∧ (binToRegion record.bin).2 ≤ v.stop then
      some (.ok record)
    else if record.calculateEnd ≠ -1 ∧ record.calculateEnd < record.start then
      some (.error (.corrupted "aln_end < aln_start"))
    else if record.calculateEnd > v.start then some (.ok record)
    else none

theorem readInto_cons (v : RegionViewer) (fill : Fill) (rest : List Fill) :
    readInto maxBin binToRegion v (fill :: rest) =
      match verdict maxBin binToRegion v fill with
      | none => readInto maxBin binToRegion v rest
      | some result => (result, rest) := by
  cases fill with
  | error e => rfl
  | ok record =>
    -- the guards of `read_into` in order: each sends both sides down the same branch
    simp only [readInto, verdict]
    by_cases unmapped : (!record.mapped) = true
    · rw [if_pos unmapped, if_pos unmapped]
    rw [if_neg unmapped, if_neg unmapped]
    by_cases late : record.start ≥ v.stop
    · rw [if_pos late, if_pos late]
    rw [if_neg late, if_neg late]
    by_cases dropped : (!v.predicate record) = true
    · rw [if_pos dropped, if_pos dropped]
    rw [if_neg dropped, if_neg dropped]
    by_cases corrupt : record.bin > maxBin
    · rw [if_pos corrupt, if_pos corrupt]
    rw [if_neg corrupt, if_neg corrupt]
    by_cases inside :
        (binToRegion record.bin).1 ≥ v.start ∧ (binToRegion record.bin).2 ≤ v.stop
    · rw [if_pos inside, if_pos inside]
    rw [if_neg inside, if_neg inside]
    by_cases reversed : record.calculateEnd ≠ -1 ∧ record.calculateEnd < record.start
    · rw [if_pos reversed, if_pos reversed]
    rw [if_neg reversed, if_neg reversed]
    by_cases overlaps : record.calculateEnd > v.start
    · rw [if_pos overlaps, if_pos overlaps]
    rw [if_neg overlaps, if_neg overlaps]

def stops : Except RecordError Record → Bool
  | .error .noMoreRecords => true
  | _ => false

def untilStop : List (Except RecordError Record) → List (Except RecordError Record)
  | [] => []
  | .error .noMoreRecords :: _ => []
  | result :: rest => result :: untilStop rest

/-- What successive calls of `next` return before the first `None`, read off the fills. -/
def outcomes (v : RegionViewer) (fills : List Fill) : List (Except RecordError Record) :=
  untilStop (fills.filterMap (verdict maxBin binToRegion v))

/-- Successive calls of `next` from `v`, up to the first `None`, and what they returned. -/
inductive Yields : RegionViewer → List (Except RecordError Record) → Prop
  | done {v : RegionViewer} : (next maxBin binToRegion v).1 = none → Yields v []
  | step {v : RegionViewer} {result : Except RecordError Record}
      {results : List (Except RecordError Record)} :
      (next maxBin binToRegion v).1 = some result →
      Yields (next maxBin binToRegion v).2 results → Yields v (result :: results)

@[simp] theorem untilStop_noMoreRecords (rest : List (Except RecordError Record)) :
    untilStop (.error .noMoreRecords :: rest) = [] := rfl

theorem untilStop_cons {result : Except RecordError Record} (going : stops result = false)
    (rest : List (Except RecordError Record)) :
    untilStop (result :: rest) = result :: untilStop rest := by
  rcases result with (_ | _ | _) | _ <;> first | rfl | cases going

theorem outcomes_readInto (v : RegionViewer) (fills : List Fill) :
    outcomes maxBin binToRegion v fills =
      untilStop ((readInto maxBin binToRegion v fills).1 ::
        (readInto maxBin binToRegion v fills).2.filterMap (verdict maxBin binToRegion v)) := by
  induction fills with
  | nil => rfl
  | cons fill rest ih =>
    rw [readInto_cons]
    cases judged : verdict maxBin binToRegion v fill with
    | none => simpa only [outcomes, List.filterMap_cons, judged] using ih
    | some result => simp only [outcomes, List.filterMap_cons, judged]

theorem readInto_shorter (v : RegionViewer) (fills : List Fill) :
    fills = [] ∨ (readInto maxBin binToRegion v fills).2.length < fills.length := by
  induction fills with
  | nil => exact .inl rfl
  | cons fill rest ih =>
    refine .inr ?_
    rw [readInto_cons]
    cases verdict maxBin binToRegion v fill with
    | none =>
      rcases ih with rfl | shorter
      · simp [readInto]
      · simp only [List.length_cons]
        omega
    | some result => simp

theorem next_eq (v : RegionViewer) :
    next maxBin binToRegion v =
      (if stops (readInto maxBin binToRegion v v.chunksReader).1 then none
        else some (readInto maxBin binToRegion v v.chunksReader).1,
        { v with chunksReader := (readInto maxBin binToRegion v v.chunksReader).2 }) := by
  unfold next
  rcases readInto maxBin binToRegion v v.chunksReader with ⟨(_ | _ | _) | _, rest⟩ <;> rfl

theorem outcomes_chunksReader (v : RegionViewer) (fills fills' : List Fill) :
    outcomes maxBin binToRegion { v with chunksReader := fills' } fills =
      outcomes maxBin binToRegion v fills := rfl

theorem yields_outcomes {v : RegionViewer} {results : List (Except RecordError Record)}
    (yields : Yields maxBin binToRegion v results) :
    results = outcomes maxBin binToRegion v v.chunksReader := by
  induction yields with
  | @done v stopped =>
    rw [next_eq] at stopped
    split at stopped
    · rename_i stop
      rw [outcomes_readInto]
      revert stop
      rcases (readInto maxBin binToRegion v v.chunksReader).1 with (_ | _ | _) | _ <;>
        first | intro; rfl | intro stop; cases stop
    · cases stopped
  | @step v result results returned _ ih =>
    rw [next_eq] at returned ih
    split at returned
    · cases returned
    · rename_i going
      cases returned
      rw [outcomes_readInto, untilStop_cons (by simpa using going), ih]
      rfl

theorem yields_exists (v : RegionViewer) : ∃ results, Yields maxBin binToRegion v results := by
  obtain ⟨n, left⟩ : ∃ n, v.chunksReader.length = n := ⟨_, rfl⟩
  induction n using Nat.strong_induction_on generalizing v with
  | _ n ih =>
    by_cases stop : (next maxBin binToRegion v).1 = none
    · exact ⟨[], .done stop⟩
    · obtain ⟨result, returned⟩ := Option.ne_none_iff_exists'.mp stop
      have shorter : (next maxBin binToRegion v).2.chunksReader.length < n := by
        rw [next_eq] at returned ⊢
        rcases readInto_shorter maxBin binToRegion v v.chunksReader with empty | shorter
        · simp only [empty, readInto] at returned
          cases returned
        · exact left ▸ shorter
      obtain ⟨results, yields⟩ := ih _ shorter _ rfl
      exact ⟨result :: results, .step returned yields⟩

/-- The viewer keeps no error state: successive calls of `next` return, up to the first `None`, the
outcomes of the fills in stream order. -/
theorem yields_iff_outcomes (v : RegionViewer) (results : List (Except RecordError Record)) :
    Yields maxBin binToRegion v results ↔
      results = outcomes maxBin binToRegion v v.chunksReader := by
  refine ⟨yields_outcomes maxBin binToRegion, fun listed => ?_⟩
  obtain ⟨found, yields⟩ := yields_exists maxBin binToRegion v
  rwa [listed, ← yields_outcomes maxBin binToRegion yields]

/-- Modelled from the spec: `index::MAX_BIN`, the last bin of the six-level binning. -/
def maxBinSpec : Nat := 37448

/-- Modelled from the spec: `index::bin_to_region`. Bin 0 is `(i32::MIN, i32::MAX)`; each level
below cuts the reference into eight times smaller windows, down to 2^14 bases. -/
def binToRegionSpec (bin : Nat) : Int × Int :=
  if bin = 0 then (-2147483648, 2147483647)
  else
    let (first, size) : Nat × Nat :=
      if bin ≤ 8 then (1, 67108864) else if bin ≤ 72 then (9, 8388608)
      else if bin ≤ 584 then (73, 1048576) else if bin ≤ 4680 then (585, 131072)
      else (4681, 16384)
    (((bin - first) * size : Nat), ((bin - first + 1) * size : Nat))

/-- Scenario S6: a mapped record whose bin is `MAX_BIN + 1`. -/
def recordBadBin : Record :=
  { refId := 0, start := 10, mapped := true, bin := 37449, cigar := [(10, .alnMatch)],
    alnQueryEnd := 10 }

def recordInWindow : Record :=
  { refId := 0, start := 20, mapped := true, bin := 4681, cigar := [(10, .alnMatch)],
    alnQueryEnd := 10 }

theorem corrupted_then_ok :
    (next maxBinSpec binToRegionSpec
        ⟨[.ok recordBadBin, .ok recordInWindow], 0, 100, fun _ => true⟩).1 =
      some (.error (.corrupted "Read has BAI bin bigger than max possible value")) ∧
    (next maxBinSpec binToRegionSpec (next maxBinSpec binToRegionSpec
        ⟨[.ok recordBadBin, .ok recordInWindow], 0, 100, fun _ => true⟩).2).1 =
      some (.ok recordInWindow) :=
  ⟨rfl, rfl⟩

def recordNoCigar : Record :=
  { refId := 0, start := 0, mapped := true, bin := 4681, cigar := [], alnQueryEnd := 0 }

/-- The bin shortcut returns a record with no reference-consuming op, whose `calculate_end()`
is -1, when its bin lies inside the window. -/
theorem shortcut_yields_unaligned :
    recordNoCigar.bin ≤ maxBinSpec ∧
      (binToRegionSpec recordNoCigar.bin).1 ≤ recordNoCigar.start ∧
      max recordNoCigar.calculateEnd (recordNoCigar.start + 1) ≤
        (binToRegionSpec recordNoCigar.bin).2 ∧
      (next maxBinSpec binToRegionSpec ⟨[.ok recordNoCigar], 0, 16384, fun _ => true⟩).1 =
        some (.ok recordNoCigar) ∧
      recordNoCigar.calculateEnd = -1 :=
  ⟨by decide, by decide, by decide, rfl, rfl⟩

/-- The test `read_into` applies to a mapped record kept by the predicate that starts before `end`:
its bin lies in the window, or it ends after `start`. -/
def selected (v : RegionViewer) (r : Record) : Bool :=
  r.mapped && v.predicate r && decide (r.start < v.stop) &&
    (decide ((binToRegion r.bin).1 ≥ v.start ∧ (binToRegion r.bin).2 ≤ v.stop) ||
      decide (r.calculateEnd > v.start))

theorem selected_late {v : RegionViewer} {r : Record} (late : v.stop ≤ r.start) :
    selected binToRegion v r = false := by
  simp [selected, Int.not_lt.mpr late]

theorem verdict_of_binned {v : RegionViewer} {r : Record} (binned : r.bin ≤ maxBin) :
    verdict maxBin binToRegion v (.ok r) =
      if r.mapped ∧ r.start ≥ v.stop then some (.error .noMoreRecords)
      else if selected binToRegion v r then some (.ok r) else none := by
  have fits : ¬ r.bin > maxBin := by omega
  by_cases mapped : r.mapped
  · by_cases late : r.start ≥ v.stop
    · simp [verdict, mapped, late]
    · have early : r.start < v.stop := by omega
      by_cases kept : v.predicate r
      · by_cases inside : (binToRegion r.bin).1 ≥ v.start ∧ (binToRegion r.bin).2 ≤ v.stop
        · simp [verdict, selected, mapped, late, kept, fits, inside, early]
        · have sane : ¬ (r.calculateEnd ≠ -1 ∧ r.calculateEnd < r.start) := by
            have := r.calculateEnd_cases
            omega
          simp [verdict, selected, mapped, late, kept, fits, inside, sane, early]
      · simp [verdict, selected, mapped, late, kept]
  · simp [verdict, selected, mapped]

theorem outcomes_selected (v : RegionViewer) {records : List Record}
    (sorted : (records.filter (·.mapped)).Pairwise fun a b => a.start ≤ b.start)
    (binned : ∀ r ∈ records, r.mapped → r.bin ≤ maxBin) :
    outcomes maxBin binToRegion v (records.map .ok) =
      (records.filter (selected binToRegion v)).map .ok := by
  induction records with
  | nil => rfl
  | cons r rest ih =>
    have tail_sorted := sorted
    have tail_binned : ∀ r' ∈ rest, r'.mapped → r'.bin ≤ maxBin :=
      fun r' mem => binned r' (.tail _ mem)
    by_cases mapped : r.mapped = true
    · simp only [List.filter_cons, mapped, if_true, List.pairwise_cons] at tail_sorted
      obtain ⟨first, tail_sorted⟩ := tail_sorted
      have judged := verdict_of_binned maxBin binToRegion (v := v) (binned r (.head _) mapped)
      by_cases late : r.start ≥ v.stop
      · simp only [mapped, late, and_self, if_true] at judged
        simp only [outcomes, List.map_cons, List.filterMap_cons, judged, untilStop_noMoreRecords]
        have rest_off : rest.filter (selected binToRegion v) = [] :=
          List.filter_eq_nil_iff.mpr fun r' mem => by
            by_cases mapped' : r'.mapped = true
            · simp [selected_late binToRegion
                (Int.le_trans late (first r' (List.mem_filter.mpr ⟨mem, mapped'⟩)))]
            · simp [selected, mapped']
        simp [List.filter_cons, selected_late binToRegion late, rest_off]
      · simp only [mapped, late, and_false, if_false] at judged
        have rest_eq := ih tail_sorted tail_binned
        simp only [outcomes] at rest_eq
        cases chosen : selected binToRegion v r
        · simp only [outcomes, List.map_cons, List.filterMap_cons, judged, chosen]
          simpa [List.filter_cons, chosen] using rest_eq
        · simp only [outcomes, List.map_cons, List.filterMap_cons, judged, chosen, if_true]
          rw [untilStop_cons (by rfl), rest_eq]
          simp [List.filter_cons, chosen]
    · have skipped : verdict maxBin binToRegion v (.ok r) = none := by simp [verdict, mapped]
      have off : selected binToRegion v r = false := by simp [selected, mapped]
      simp only [List.filter_cons, mapped, Bool.false_eq_true, if_false] at tail_sorted
      have rest_eq := ih tail_sorted tail_binned
      simp only [outcomes] at rest_eq
      simp only [outcomes, List.map_cons, List.filterMap_cons, skipped]
      simpa [List.filter_cons, off] using rest_eq

/-- Scenario S1: one record `10M` at 100. -/
def recordS1 : Record :=
  { refId := 0, start := 100, mapped := true, bin := 4681, cigar := [(10, .alnMatch)],
    alnQueryEnd := 10 }

def recordAcrossBin : Record :=
  { refId := 0, start := 16380, mapped := true, bin := 585, cigar := [(10, .alnMatch)],
    alnQueryEnd := 10 }

def recordPastEnd : Record :=
  { refId := 0, start := 20000, mapped := true, bin := 4682, cigar := [(10, .alnMatch)],
    alnQueryEnd := 10 }

def recordFarPastEnd : Record :=
  { refId := 0, start := 30000, mapped := true, bin := 4682, cigar := [(10, .alnMatch)],
    alnQueryEnd := 10 }

/-- Scenario S1 over `[0, 16384)`, which holds bin 4681 whole: the record of S1, one across the
bin's end, and two past `end`. -/
def viewerS1 : RegionViewer :=
  ⟨[.ok recordS1, .ok recordAcrossBin, .ok recordPastEnd, .ok recordFarPastEnd], 0, 16384,
    fun _ => true⟩

end RegionViewer

end Bam
