import Pkm.Lib.Buckets
/-!
# The counter store

A COUNT adds to a named stream; the conditions of the rules are views of it, each by a key
and over a window of seconds. The store keeps one table for each stream and key-spec, with
a cell for each key that was counted: a total, and a ring of buckets for each window of the
table. A publication hands over all views of the new rules and brings the tables in line
with them.

The cells of a table stand in the order in which the source walks them: bucket by bucket of
its hash table, within a bucket the newest first. The hash of a key is a parameter, and so
are the outcomes of allocations: `allocs` says which of those that an operation makes
succeed.
-/

namespace Pkm.Ntfe

abbrev U64 := BitVec 64

/-! ## Rings -/

def counterBuckets : ℕ := 8

/-- A ring of a cell. `window` is kept for the sake of the specification only: the window that
the ring was made for. -/
structure CounterRing where
  window : ℕ
  buckets : Buckets 8 U64

def CounterRing.fresh (window : ℕ) : CounterRing := ⟨window, .empty⟩

def bucketSecs (windowSecs : ℕ) : ℕ := max 1 (windowSecs / counterBuckets)

def ringSum (r : CounterRing) (windowSecs now : ℕ) : U64 :=
  r.buckets.sum (now / bucketSecs windowSecs)

def ringAdd (r : CounterRing) (windowSecs now : ℕ) (amount : U64) : CounterRing :=
  { r with buckets := r.buckets.add (now / bucketSecs windowSecs) amount }

/-! ## Keys -/

/-- The facts of a packet that keys are made of. -/
structure CounterFacts where
  addrFamily : BitVec 8
  srcAddr : BitVec 128
  dstAddr : BitVec 128
  ifindex : ℤ

structure CounterKey where
  family : BitVec 8
  ifindex : ℤ
  src : BitVec 128
  dst : BitVec 128
  deriving DecidableEq

abbrev Keyspec := BitVec 8

namespace Keyspec

def srcAddr : Keyspec := 1

def dstAddr : Keyspec := 2

def interface : Keyspec := 4

def has (keyspec bits : Keyspec) : Bool := keyspec &&& bits != 0

end Keyspec

/-- The key of a packet, unless a fact is absent that the key-spec asks for. -/
def counterKeyOf (facts : CounterFacts) (keyspec : Keyspec) : Option CounterKey :=
  let addressed := keyspec.has (Keyspec.srcAddr ||| Keyspec.dstAddr)
  let faced := keyspec.has Keyspec.interface
  if addressed && facts.addrFamily == 0 then none
  else if faced && facts.ifindex ≤ 0 then none
  else
    some {
      family := if addressed then facts.addrFamily else 0
      ifindex := if faced then facts.ifindex else 0
      src := if keyspec.has Keyspec.srcAddr then facts.srcAddr else 0
      dst := if keyspec.has Keyspec.dstAddr then facts.dstAddr else 0 }

/-! ## Tables -/

structure CounterCell where
  key : CounterKey
  total : U64
  lastSecs : ℕ
  rings : List CounterRing

/-- A cell as it is allocated for some windows. -/
def CounterCell.fresh (windows : List ℕ) (key : CounterKey) : CounterCell :=
  ⟨key, 0, 0, windows.map CounterRing.fresh⟩

/-- What a table counts: a stream, by a key-spec. -/
structure TableId where
  hash : U64
  keyspec : Keyspec
  deriving DecidableEq

structure CounterTable where
  id : TableId
  windows : List ℕ
  cells : List CounterCell

abbrev CounterStore := List CounterTable

def tableFind (store : CounterStore) (id : TableId) : Option CounterTable :=
  store.find? fun t => t.id == id

variable (t : CounterTable)

def cellFind (key : CounterKey) : Option CounterCell := t.cells.find? fun c => c.key == key

def windowIndex (windows : List ℕ) (window : ℕ) : Option ℕ := windows.findIdx? fun w => w == window

/-! ## Reading -/

/-- What a read gives. A ring past the end of a cell is memory of something else. -/
inductive CounterReading where
  | absent
  | value (v : U64)
  | outOfBounds
  deriving DecidableEq

def cellRead (c : CounterCell) (windowSecs now : ℕ) : CounterReading :=
  if windowSecs = 0 then .value c.total
  else
    match windowIndex t.windows windowSecs with
    | none => .absent
    | some w =>
      match c.rings[w]? with
      | none => .outOfBounds
      | some ring => .value (ringSum ring windowSecs now)

/-- The value under a key. -/
def keyRead (store : CounterStore) (id : TableId) (key : CounterKey) (windowSecs now : ℕ) :
    CounterReading :=
  match tableFind store id with
  | none => .absent
  | some t =>
    match cellFind t key with
    | none => .absent
    | some c => cellRead t c windowSecs now

def counterRead (store : CounterStore) (facts : CounterFacts) (id : TableId)
    (windowSecs now : ℕ) : CounterReading :=
  match counterKeyOf facts id.keyspec with
  | none => .absent
  | some key => keyRead store id key windowSecs now

/-! ## Counting -/

def counterMaxKeys : ℕ := 4096

def counterIdleFloorSecs : ℕ := 60

def tableLongestWindow : ℕ := t.windows.foldl max 0

/-- Frees the cells that are idle past the horizon of the table. -/
def tableReap (now : ℕ) : CounterTable :=
  let horizon := max (tableLongestWindow t) counterIdleFloorSecs
  { t with cells := t.cells.filter fun c => !(now > c.lastSecs && now - c.lastSecs > horizon) }

section

variable (bucket : CounterKey → ℕ)

/-- A new cell goes to the head of its bucket. -/
def insertCell (c : CounterCell) (cells : List CounterCell) : List CounterCell :=
  cells.takeWhile (fun d => bucket d.key < bucket c.key) ++
    c :: cells.dropWhile fun d => bucket d.key < bucket c.key

/-- The table with a cell for the key, if there is one or there is room for one. -/
def cellGet (t : CounterTable) (key : CounterKey) (now : ℕ) (alloc : Bool) :
    CounterTable × Bool :=
  if (cellFind t key).isSome then (t, true)
  else
    let t := if t.cells.length ≥ counterMaxKeys then tableReap t now else t
    if t.cells.length ≥ counterMaxKeys then (t, false)
    else if alloc then
      ({ t with cells := insertCell bucket (.fresh t.windows key) t.cells }, true)
    else (t, false)

/-- The rings of a cell, one for each window of its table; a ring past the end of the cell is
not followed. -/
def addRings (now : ℕ) (amount : U64) : List ℕ → List CounterRing → List CounterRing
  | window :: windows, ring :: rings =>
    ringAdd ring window now amount :: addRings now amount windows rings
  | _, rings => rings

def CounterCell.add (windows : List ℕ) (now : ℕ) (amount : U64) (c : CounterCell) : CounterCell :=
  { c with
    total := c.total + amount
    lastSecs := now
    rings := addRings now amount windows c.rings }

/-- Adds to the cell of the packet in one table. -/
def tableAdd (facts : CounterFacts) (hash amount : U64) (now : ℕ) (alloc : Bool)
    (t : CounterTable) : CounterTable :=
  if t.id.hash ≠ hash then t
  else
    match counterKeyOf facts t.id.keyspec with
    | none => t
    | some key =>
      let (t, found) := cellGet bucket t key now alloc
      if found then
        { t with cells := t.cells.map fun c =>
            if c.key = key then c.add t.windows now amount else c }
      else t

/-- Adds an amount to every table of a stream; `allocs` answers for the tables in turn. -/
def counterAdd (store : CounterStore) (facts : CounterFacts) (hash amount : U64) (now : ℕ)
    (allocs : ℕ → Bool) : CounterStore :=
  if amount = 0 then store
  else store.mapIdx fun i t => tableAdd bucket facts hash amount now (allocs i) t

end

/-! ## Publication -/

structure CounterView where
  id : TableId
  windowSecs : ℕ

structure TableSpec where
  id : TableId
  windows : List ℕ

inductive PublishError where
  | noMemory
  | tooBig
  deriving DecidableEq

def counterMaxWindows : ℕ := 8

/-- The spec with a window of a view. -/
def TableSpec.addWindow (s : TableSpec) (windowSecs : ℕ) : Except PublishError TableSpec :=
  if windowSecs = 0 then .ok s
  else if s.windows.contains windowSecs then .ok s
  else if s.windows.length ≥ counterMaxWindows then .error .tooBig
  else .ok { s with windows := s.windows ++ [windowSecs] }

/-- Folds a view into the specs. -/
def addView (v : CounterView) : List TableSpec → Except PublishError (List TableSpec)
  | [] => do
    let s ← TableSpec.addWindow ⟨v.id, []⟩ v.windowSecs
    .ok [s]
  | s :: specs =>
    if s.id = v.id then do
      let s ← s.addWindow v.windowSecs
      .ok (s :: specs)
    else do
      let specs ← addView v specs
      .ok (s :: specs)

def foldViews (views : List CounterView) : Except PublishError (List TableSpec) :=
  views.foldlM (fun specs v => addView v specs) []

def windowsEqual (s : TableSpec) : Bool :=
  t.windows.length == s.windows.length &&
    s.windows.all fun window => (windowIndex t.windows window).isSome

/-- A cell in the layout of new windows. -/
def migrateCell (old new : List ℕ) (c : CounterCell) : CounterCell :=
  { c with rings := new.map fun window =>
      match windowIndex old window with
      | some i => c.rings[i]?.getD (.fresh window)
      | none => .fresh window }

/-- Cells after a migration, the allocations made by then, and whether it got to the end. -/
structure Migration where
  cells : List CounterCell
  next : ℕ
  complete : Bool

section

variable (allocs : ℕ → Bool)

/-- Replaces the cells one by one, from the `k`-th allocation on. -/
def migrateCells (old new : List ℕ) : ℕ → List CounterCell → Migration
  | k, [] => ⟨[], k, true⟩
  | k, c :: cells =>
    if allocs k then
      let rest := migrateCells old new (k + 1) cells
      { rest with cells := migrateCell old new c :: rest.cells }
    else ⟨c :: cells, k + 1, false⟩

/-- The table with what a migration has made of its cells. The windows are switched at the end. -/
def tableMigrate (t : CounterTable) (s : TableSpec) (m : Migration) : CounterTable :=
  { t with
    windows := if m.complete then s.windows else t.windows
    cells := m.cells }

def tableCreate (s : TableSpec) : CounterTable := ⟨s.id, s.windows, []⟩

/-- Puts a table in the place of the first one under its name. -/
def tableReplace (t : CounterTable) : CounterStore → CounterStore
  | [] => []
  | u :: store => if u.id = t.id then t :: store else u :: tableReplace t store

/-- What has been done for a spec. -/
structure SpecDone where
  store : CounterStore
  next : ℕ
  complete : Bool

/-- Keeps, migrates or creates the table of a spec. -/
def publishSpec (k : ℕ) (s : TableSpec) (store : CounterStore) : SpecDone :=
  match tableFind store s.id with
  | some t =>
    if windowsEqual t s then ⟨store, k, true⟩
    else
      let m := migrateCells allocs t.windows s.windows k t.cells
      ⟨tableReplace (tableMigrate t s m) store, m.next, m.complete⟩
  | none =>
    if allocs k then ⟨store ++ [tableCreate s], k + 1, true⟩
    else ⟨store, k + 1, false⟩

/-- What a publication has done. -/
structure Published where
  result : Except PublishError Unit
  store : CounterStore

/-- The specs in turn, up to the first failure. -/
def publishSpecs : ℕ → List TableSpec → CounterStore → Published
  | _, [], store => ⟨.ok (), store⟩
  | k, s :: specs, store =>
    let done := publishSpec allocs k s store
    if done.complete then publishSpecs done.next specs done.store
    else ⟨.error .noMemory, done.store⟩

/-- Retires the tables that no view asks for. -/
def retire (specs : List TableSpec) (store : CounterStore) : CounterStore :=
  store.filter fun t => specs.any fun s => s.id == t.id

def countersPublish (views : List CounterView) (store : CounterStore) : Published :=
  if !allocs 0 then ⟨.error .noMemory, store⟩
  else
    match foldViews views with
    | .error e => ⟨.error e, store⟩
    | .ok specs =>
      let published := publishSpecs allocs 1 specs store
      match published.result with
      | .error _ => published
      | .ok _ => { published with store := retire specs published.store }

end

/-! ## Runs -/

inductive CounterOp where
  | add (facts : CounterFacts) (hash amount : U64) (now : ℕ) (allocs : ℕ → Bool)
  | read (facts : CounterFacts) (id : TableId) (windowSecs now : ℕ)
  | publish (views : List CounterView) (allocs : ℕ → Bool)

def CounterOp.apply (bucket : CounterKey → ℕ) (store : CounterStore) : CounterOp → CounterStore
  | .add facts hash amount now allocs => counterAdd bucket store facts hash amount now allocs
  | .read .. => store
  | .publish views allocs => (countersPublish allocs views store).store

/-- The store after some operations, from the empty one. -/
def storeAfter (bucket : CounterKey → ℕ) (ops : List CounterOp) : CounterStore :=
  ops.foldl (CounterOp.apply bucket) []

end Pkm.Ntfe
