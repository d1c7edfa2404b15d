/-! A queue as a chain of nodes in memory. `head` is the sentinel, whose value is
gone; the items are the values of the nodes after it. `tail` is where enqueuers
look for the end of the chain and may lag behind it. All changes go through
compare-and-swap on `head`, on `tail` and on the `next` field of a node. -/

namespace QueueRace

/-- Where a node lives. No address is given out twice. -/
abbrev Addr := Nat

structure Node (α : Type) where
  value : Option α
  next : Option Addr

structure Chain (α : Type) where
  nodes : Array (Node α)
  head : Addr
  tail : Addr

namespace Chain

variable {α : Type}

def empty : Chain α := ⟨#[⟨none, none⟩], 0, 0⟩

instance : Inhabited (Chain α) := ⟨empty⟩

def next (c : Chain α) (a : Addr) : Option Addr := c.nodes[a]?.bind Node.next

def value (c : Chain α) (a : Addr) : Option α := c.nodes[a]?.bind Node.value

/-- A node for `v`, not linked to anything yet; its address is the old `nodes.size`. -/
def alloc (c : Chain α) (v : α) : Chain α := { c with nodes := c.nodes.push ⟨some v, none⟩ }

/-! ### Compare-and-swap -/

def casNext (c : Chain α) (a new : Addr) : Chain α × Bool :=
  if a < c.nodes.size ∧ c.next a = none then
    ({ c with nodes := c.nodes.modify a fun n => { n with next := some new } }, true)
  else (c, false)

def casTail (c : Chain α) (old new : Addr) : Chain α × Bool :=
  if c.tail = old then ({ c with tail := new }, true) else (c, false)

def casHead (c : Chain α) (old new : Addr) : Chain α × Bool :=
  if c.head = old then ({ c with head := new }, true) else (c, false)

def take (c : Chain α) (a : Addr) : Chain α × Option α :=
  let v := c.value a
  ({ c with nodes := c.nodes.modify a fun n => { n with value := none } }, v)

/-! ### Views -/

/-- The addresses reached from `a` by at most `n` links. -/
def follow (c : Chain α) : Nat → Addr → List Addr
  | 0, _ => []
  | n + 1, a => match c.next a with
    | none => []
    | some b => b :: follow c n b

/-- The addresses behind `a`, up to the end of the chain. -/
def behind (c : Chain α) (a : Addr) : List Addr := c.follow c.nodes.size a

/-- The number of items: links from `head` to the last node. -/
def length (c : Chain α) : Nat := (c.behind c.head).length

/-- How far `tail` lags: links from it to the last node. -/
def lag (c : Chain α) : Nat := (c.behind c.tail).length

/-- The items, front first. -/
def toList (c : Chain α) : List α := (c.behind c.head).filterMap c.value

end Chain

end QueueRace
