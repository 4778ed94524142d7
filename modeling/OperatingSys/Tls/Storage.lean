import OperatingSys.Lib.Search
import Mathlib.Algebra.Group.Int.Defs
import Mathlib.Algebra.Group.Nat.Defs
import Mathlib.Logic.Function.Basic

/-!
# Thread-local storage (tls.c)

The table of thread-local areas, the pages behind them and the five operations. Each call
is one step. The result `none` stands for what the source does not define: an index outside
an array, a freed page, or an access that the protection of a page does not allow.
-/

namespace OperatingSys.Tls

open Search

abbrev Byte := BitVec 8

/-- `pthread_t`. -/
abbrev Tid := BitVec 64

def maxThreadCount : Nat := 128

/-- `getpagesize()`. -/
def pageSize : Nat := 4096

/-- Protection of a mapping: `PROT_NONE`, `PROT_WRITE`, `PROT_READ | PROT_WRITE`. On the
machines the code runs on, what may be written may be read. -/
inductive Protection where
  | none
  | write
  | readWrite
  deriving DecidableEq

/-- A `struct page` with the mapping it stands for. -/
structure Page where
  address : Nat
  refCount : Int
  bytes : Nat → Byte
  protection : Protection

/-- `TLS`. A page is named by the index at which it was allocated, and `page_num` is the
length of `pages`. -/
structure Area where
  tid : Tid
  size : BitVec 32
  pages : List Nat

/-- `struct tid_tls_pair`. -/
structure Pair where
  tid : Tid
  tls : Option Area

/-- The globals of tls.c and the heap. Pages `next`, `next + 1`, … have not been allocated
yet. -/
structure State where
  initialized : Bool
  pairs : Nat → Pair
  heap : Nat → Option Page
  next : Nat

/-- A new process. -/
def State.fresh : State where
  initialized := false
  pairs := fun _ => ⟨0, none⟩
  heap := fun _ => none
  next := 0

namespace State

variable (s : State)

def storePair (i : Nat) (pair : Pair) : State :=
  { s with pairs := Function.update s.pairs i pair }

def storePage (id : Nat) (page : Option Page) : State :=
  { s with heap := Function.update s.heap id page }

/-- `malloc` of a `struct page` and `mmap` of its memory. -/
def newPage (bytes : Nat → Byte) (protection : Protection) : State :=
  { s with
    heap := Function.update s.heap s.next
      (some { address := pageSize * (s.next + 1), refCount := 1, bytes, protection })
    next := s.next + 1 }

end State

/-- The loops that look a thread up. -/
def findTid (s : State) (tid : Tid) : Option Nat :=
  firstIndex maxThreadCount fun i => (s.pairs i).tid = tid

/-- A loop over pages that touches each page in turn. -/
def eachPage (touch : State → Nat → Option State) : State → List Nat → Option State
  | s, [] => some s
  | s, id :: rest =>
    match touch s id with
    | none => none
    | some s' => eachPage touch s' rest

/-- `mprotect`. -/
def setProtection (protection : Protection) (s : State) (id : Nat) : Option State :=
  match s.heap id with
  | none => none
  | some page => some (s.storePage id (some { page with protection }))

def tlsProtect : State → Nat → Option State := setProtection .none

def tlsUnprotect : State → Nat → Option State := setProtection .readWrite

def tlsInit (s : State) : State :=
  { s with
    initialized := true
    pairs := fun i => if i < maxThreadCount then { s.pairs i with tid := -1 } else s.pairs i }

/-! ### Creating and destroying -/

/-- `page_num = (size - 1) / page_size + 1`, in `unsigned int`. -/
def pageCount (size : BitVec 32) : Nat := (size - 1).toNat / pageSize + 1

/-- The loop of `tls_create`: `n` new pages. -/
def newPages (s : State) : (n : Nat) → State
  | 0 => s
  | n + 1 => newPages (s.newPage (fun _ => 0) .none) n

def tlsCreate (s : State) (self : Tid) (size : BitVec 32) : Option (Int × State) :=
  let s := if s.initialized then s else tlsInit s
  if size = 0 then some (-1, s)
  else
    let newTlsIndex := firstIndex maxThreadCount fun i => (s.pairs i).tid = -1
    if (findTid s self).isSome then some (-1, s)
    else
      let newTls : Area :=
        { tid := self, size, pages := (List.range (pageCount size)).map (s.next + ·) }
      match newTlsIndex with
      -- `tid_tls_pairs[-1]`
      | none => none
      | some i => some (0, (newPages s (pageCount size)).storePair i ⟨self, some newTls⟩)

/-- One round of the loop of `tls_destroy`. -/
def releasePage (s : State) (id : Nat) : Option State :=
  match s.heap id with
  | none => none
  | some page =>
    if page.refCount = 1 then some (s.storePage id none)
    else some (s.storePage id (some { page with refCount := page.refCount - 1 }))

def tlsDestroy (s : State) (self : Tid) : Option (Int × State) :=
  match findTid s self with
  | none => some (-1, s)
  | some i =>
    match (s.pairs i).tls with
    | none => some (-1, s)
    | some tls =>
      match eachPage releasePage s tls.pages with
      | none => none
      | some s' => some (0, s'.storePair i ⟨0, none⟩)

/-! ### Reading and writing -/

/-- `idx` in round `cnt` of the loops: an `int` that starts as `offset`. -/
def indexOf (offset : BitVec 32) (cnt : Nat) : Int := (offset + BitVec.ofNat 32 cnt).toInt

/-- `pn = idx / page_size`, stored in an `unsigned int`. -/
def pageNumber (idx : Int) : Nat := (BitVec.ofInt 32 (idx.tdiv pageSize)).toNat

/-- `poff = idx % page_size`, stored in an `unsigned int`. -/
def pageOffset (idx : Int) : Nat := (BitVec.ofInt 32 (idx.tmod pageSize)).toNat

/-- The number of rounds of `for (idx = offset; idx < (offset + length); ++idx)`. -/
def rounds (offset length : BitVec 32) : Nat := (offset + length).toNat - offset.toNat

/-- One round of the loop of `tls_read`: the byte that `*src` reads. -/
def readByte (s : State) (tls : Area) (idx : Int) : Option Byte :=
  match tls.pages[pageNumber idx]? with
  | none => none
  | some id =>
    match s.heap id with
    | none => none
    | some page =>
      if page.protection = .none ∨ pageSize ≤ pageOffset idx then none
      else some (page.bytes (pageOffset idx))

def readLoop (s : State) (tls : Area) (offset : BitVec 32) : List Nat → Option (List Byte)
  | [] => some []
  | cnt :: rest =>
    match readByte s tls (indexOf offset cnt) with
    | none => none
    | some byte =>
      match readLoop s tls offset rest with
      | none => none
      | some bytes => some (byte :: bytes)

/-- Return value, bytes delivered, globals afterwards. -/
def tlsRead (s : State) (self : Tid) (offset length : BitVec 32) :
    Option (Int × List Byte × State) :=
  match (findTid s self).bind fun i => (s.pairs i).tls with
  | none => some (-1, [], s)
  | some tls =>
    if offset + length > tls.size then some (-1, [], s)
    else
      match eachPage tlsUnprotect s tls.pages with
      | none => none
      | some s₁ =>
        match readLoop s₁ tls offset (List.range (rounds offset length)) with
        | none => none
        | some bytes =>
          match eachPage tlsProtect s₁ tls.pages with
          | none => none
          | some s₂ => some (0, bytes, s₂)

/-- `*dst = buffer[cnt]` in page `id`; an offset past the page is in no mapping of it. -/
def storeByte (s : State) (id poff : Nat) (byte : Byte) : Option State :=
  match s.heap id with
  | none => none
  | some page =>
    if page.protection = .none ∨ pageSize ≤ poff then none
    else some (s.storePage id (some { page with bytes := Function.update page.bytes poff byte }))

/-- The shared page `id` gives way to a copy in the page table of pair `i`. -/
def copyPage (s : State) (i : Nat) (tls : Area) (pn id : Nat) (page : Page) : Option State :=
  if page.protection = .none then none
  else
    let s₁ := s.newPage page.bytes .write
    let s₂ := s₁.storePair i { s₁.pairs i with tls := some { tls with pages := tls.pages.set pn s.next } }
    tlsProtect (s₂.storePage id (some { page with refCount := page.refCount - 1 })) id

/-- One round of the loop of `tls_write` for the area of pair `i`. -/
def writeByte (s : State) (i : Nat) (idx : Int) (byte : Byte) : Option State :=
  match (s.pairs i).tls with
  | none => none
  | some tls =>
    match tls.pages[pageNumber idx]? with
    | none => none
    | some id =>
      match s.heap id with
      | none => none
      | some page =>
        if page.refCount > 1 then
          match copyPage s i tls (pageNumber idx) id page with
          | none => none
          | some s' => storeByte s' s.next (pageOffset idx) byte
        else storeByte s id (pageOffset idx) byte

def writeLoop (i : Nat) (offset : BitVec 32) (buffer : Nat → Byte) :
    State → List Nat → Option State
  | s, [] => some s
  | s, cnt :: rest =>
    match writeByte s i (indexOf offset cnt) (buffer cnt) with
    | none => none
    | some s' => writeLoop i offset buffer s' rest

def tlsWrite (s : State) (self : Tid) (offset length : BitVec 32) (buffer : Nat → Byte) :
    Option (Int × State) :=
  match findTid s self with
  | none => some (-1, s)
  | some i =>
    match (s.pairs i).tls with
    | none => some (-1, s)
    | some tls =>
      if offset + length > tls.size then some (-1, s)
      else
        match eachPage tlsUnprotect s tls.pages with
        | none => none
        | some s₁ =>
          match writeLoop i offset buffer s₁ (List.range (rounds offset length)) with
          | none => none
          | some s₂ =>
            match (s₂.pairs i).tls with
            | none => none
            | some tls' =>
              match eachPage tlsProtect s₂ tls'.pages with
              | none => none
              | some s₃ => some (0, s₃)

/-! ### Cloning -/

/-- One round of the loop of `tls_clone`. -/
def sharePage (s : State) (id : Nat) : Option State :=
  match s.heap id with
  | none => none
  | some page => some (s.storePage id (some { page with refCount := page.refCount + 1 }))

def tlsClone (s : State) (self tid : Tid) : Option (Int × State) :=
  if ((findTid s self).bind fun i => (s.pairs i).tls).isSome then some (-1, s)
  else
    match (findTid s tid).bind fun i => (s.pairs i).tls with
    | none => some (-1, s)
    | some target =>
      match eachPage sharePage s target.pages with
      | none => none
      | some s' =>
        match firstIndex maxThreadCount fun i => (s'.pairs i).tid = -1 with
        | none => some (0, s')
        | some i => some (0, s'.storePair i ⟨self, some { target with tid := self }⟩)

/-! ### Calls -/

inductive Operation where
  | create (size : BitVec 32)
  | clone (tid : Tid)
  | read (offset length : BitVec 32)
  | write (offset length : BitVec 32) (buffer : Nat → Byte)
  | destroy

/-- An operation and the thread that calls it. -/
structure Call where
  self : Tid
  operation : Operation

/-- The return value of a call and the bytes it delivers. -/
abbrev Reply := Int × List Byte

def call (s : State) (c : Call) : Option (Reply × State) :=
  match c.operation with
  | .create size => (tlsCreate s c.self size).map fun r => ((r.1, []), r.2)
  | .clone tid => (tlsClone s c.self tid).map fun r => ((r.1, []), r.2)
  | .read offset length => (tlsRead s c.self offset length).map fun r => ((r.1, r.2.1), r.2.2)
  | .write offset length buffer =>
    (tlsWrite s c.self offset length buffer).map fun r => ((r.1, []), r.2)
  | .destroy => (tlsDestroy s c.self).map fun r => ((r.1, []), r.2)

end OperatingSys.Tls
