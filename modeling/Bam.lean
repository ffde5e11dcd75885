import Bam.Record
import Bam.Pileup.Entry
import Bam.Pileup.Cursor
import Bam.Pileup.Direct
import Bam.Pileup.Tiling
import Bam.Pileup.Engine
import Bam.Pileup.Filter
import Bam.Pileup.Hang
import Bam.Pileup.Column
import Bam.Pileup.Ingest
import Bam.Pileup.Order
import Bam.Pileup.Sorted
import Bam.Pileup.Walk
import Bam.Pileup.Pending
import Bam.Pileup.Complete
import Bam.Pileup.ReadAhead
import Bam.Pileup.Transpose
import Bam.Pileup.Final
import Bam.Pileup.ErrorItem
import Bam.Reader.RegionViewer
import Bam.Reader.Fetch
import Bam.Reader.Consecutive
