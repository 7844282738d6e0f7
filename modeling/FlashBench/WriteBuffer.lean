import FlashBench.SsdInfo

/-!
# The write buffer

The functions of `write_buffer.c`. The entries are allocated once; the three
utlist lists hold their numbers. The uthash table is a finite map from LPAs to
entries, and `HASH_DEL` removes the key that the entry carries.
-/

namespace FlashBench

/-- `fb_wb_pg_t` without its list links; `Data` is the type of `pg_size` bytes. -/
structure WbPg (Data : Type) where
  lpa : ℕ
  data : Data
  wflag : Bool

/-- `struct fb_wb`; `pg_size` is given by the type `Data`. -/
structure WriteBuffer (Data : Type) where
  nrEntries : ℕ
  freePgs : List ℕ
  writingPgs : List ℕ
  bufPgs : List ℕ
  hashPgs : ℕ → Option ℕ
  pgs : ℕ → WbPg Data

namespace WriteBuffer

variable {Data : Type}

/-- `fb_create_write_buffer`: all entries are free. `data` stands for the uncleared
memory of their buffers. -/
def create (nrMaxEntries : ℕ) (data : ℕ → Data) : WriteBuffer Data where
  nrEntries := 0
  freePgs := List.range nrMaxEntries
  writingPgs := []
  bufPgs := []
  hashPgs := fun _ => none
  pgs := fun i => { lpa := pageUnmapped, data := data i, wflag := false }

variable (wb : WriteBuffer Data)

/-- Change an entry. -/
def updPg (i : ℕ) (f : WbPg Data → WbPg Data) : WriteBuffer Data :=
  { wb with pgs := Function.update wb.pgs i (f (wb.pgs i)) }

/-- `fb_wb_set_free_pg` -/
def setFreePg (i : ℕ) : WriteBuffer Data := { wb with freePgs := wb.freePgs ++ [i] }

/-- `fb_wb_reset_free_pg` -/
def resetFreePg (i : ℕ) : WriteBuffer Data := { wb with freePgs := wb.freePgs.erase i }

/-- `fb_wb_set_writing_pg` -/
def setWritingPg (i : ℕ) : WriteBuffer Data :=
  { wb.updPg i fun pg => { pg with wflag := true } with writingPgs := wb.writingPgs ++ [i] }

/-- `fb_wb_reset_writing_pg` -/
def resetWritingPg (i : ℕ) : WriteBuffer Data :=
  { wb.updPg i fun pg => { pg with wflag := false } with writingPgs := wb.writingPgs.erase i }

/-- `fb_wb_set_buf_pg` -/
def setBufPg (i : ℕ) : WriteBuffer Data :=
  { wb with bufPgs := wb.bufPgs ++ [i], nrEntries := wb.nrEntries + 1 }

/-- `fb_wb_reset_buf_pg` -/
def resetBufPg (i : ℕ) : WriteBuffer Data :=
  { wb with bufPgs := wb.bufPgs.erase i, nrEntries := dec32 wb.nrEntries }

/-- `fb_wb_get_buf_pg`: the hash lookup. -/
def getBufPg (lpa : ℕ) : Option ℕ := wb.hashPgs lpa

/-- `HASH_ADD`. -/
def hashAdd (lpa i : ℕ) : WriteBuffer Data :=
  { wb with hashPgs := Function.update wb.hashPgs lpa (some i) }

/-- `HASH_DEL`. -/
def hashDel (i : ℕ) : WriteBuffer Data :=
  { wb with hashPgs := Function.update wb.hashPgs (wb.pgs i).lpa none }

/-- `fb_get_pg_data`: the data copied to the destination, if the LPA is buffered. -/
def getPgData (lpa : ℕ) : Option Data := (wb.getBufPg lpa).map fun i => (wb.pgs i).data

/-- The loop of `fb_get_pgs_to_write`: the heads of the buffered list become writing
pages, and their LPAs and data are emitted. -/
def takePgs : ℕ → WriteBuffer Data → List (ℕ × Data) × WriteBuffer Data
  | 0, wb => ([], wb)
  | nrPgs + 1, wb =>
      match wb.bufPgs with
      | [] => ([], wb)
      | i :: _ =>
          let taken := takePgs nrPgs ((wb.resetBufPg i).setWritingPg i)
          (((wb.pgs i).lpa, (wb.pgs i).data) :: taken.1, taken.2)

/-- `fb_get_pgs_to_write`: nothing when fewer pages are buffered. -/
def getPgsToWrite (nrPgs : ℕ) : Option (List (ℕ × Data)) × WriteBuffer Data :=
  if nrPgs ≤ wb.nrEntries then
    let taken := takePgs nrPgs wb
    (some taken.1, taken.2)
  else (none, wb)

/-- Take an entry out of the list it is on: writing when its flag is set, else buffered. -/
def resetPg (i : ℕ) : WriteBuffer Data :=
  if (wb.pgs i).wflag then wb.resetWritingPg i else wb.resetBufPg i

/-- `fb_put_pg`: `none` when the LPA is not buffered and no entry is free. -/
def putPg (lpa : ℕ) (src : Data) : Option (WriteBuffer Data) :=
  match wb.getBufPg lpa with
  | none =>
      match wb.freePgs.head? with
      | none => none
      | some i =>
          let wb := wb.resetFreePg i
          let wb := wb.updPg i fun pg => { pg with lpa := lpa }
          let wb := wb.hashAdd lpa i
          let wb := wb.updPg i fun pg => { pg with data := src }
          some (wb.setBufPg i)
  | some i =>
      let wb := wb.resetPg i
      let wb := wb.updPg i fun pg => { pg with data := src }
      some (wb.setBufPg i)

/-- One iteration of `fb_rm_written_pgs`. -/
def rmWrittenPg (i : ℕ) : WriteBuffer Data := ((wb.resetWritingPg i).hashDel i).setFreePg i

/-- `fb_rm_written_pgs`: the loop takes the head of the writing list until it is empty. -/
def rmWrittenPgs : WriteBuffer Data := wb.writingPgs.foldl rmWrittenPg wb

/-- `fb_rm_buf_pg` -/
def rmBufPg (lpa : ℕ) : WriteBuffer Data :=
  match wb.getBufPg lpa with
  | none => wb
  | some i => ((wb.resetPg i).hashDel i).setFreePg i

end WriteBuffer

end FlashBench
