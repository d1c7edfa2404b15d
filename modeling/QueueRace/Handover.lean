import QueueRace.Interleaving

/-! Producers hand numbered parcels to consumers through one queue. All threads take
turns of a few machine steps; a consumer stops when it has seen all producers done and
then an empty queue. -/

namespace QueueRace

structure Parcel where
  producer : Nat
  seq : Nat
  deriving DecidableEq, Repr

namespace Handover

structure Plan where
  producers : Nat
  consumers : Nat
  items : Nat
  /-- Consumers wait for all producers to be done before they start. -/
  late : Bool

/-- What a thread does between its calls. -/
inductive Client where
  | producing (id next : Nat)
  | finished
  /-- `drained` is whether all producers were done before the last dequeue; the last
  parcel that was received comes first. -/
  | consuming (drained : Bool) (received : List Parcel)
  | stopped (received : List Parcel)

structure State where
  world : World Parcel
  clients : Array Client
  finished : Nat

def start (p : Plan) : State where
  world := .start (p.producers + p.consumers)
  clients := (Array.range p.producers).map (.producing · 0) ++
    Array.replicate p.consumers (.consuming false [])
  finished := 0

/-- The call that an idle client makes next, the client meanwhile, and whether it has
just finished producing. -/
def Client.next (p : Plan) (finished : Nat) : Client → Client × Option (Call Parcel) × Bool
  | .producing id n =>
    if n < p.items then (.producing id (n + 1), some (.enqueue ⟨id, n⟩), false)
    else (.finished, none, true)
  | .finished => (.finished, none, false)
  | .consuming _ received =>
    if p.late ∧ finished < p.producers then (.consuming false received, none, false)
    else (.consuming (finished = p.producers) received, some .dequeue, false)
  | .stopped received => (.stopped received, none, false)

def Client.receive : Client → Answer Parcel → Client
  | .consuming drained received, .dequeued (some v) => .consuming drained (v :: received)
  | .consuming true received, .dequeued none => .stopped received
  | client, _ => client

/-- One move of thread `t`: a step of its call, or else its next call. -/
def move (p : Plan) (s : State) (t : Nat) : State :=
  match s with
  | ⟨world, clients, finished⟩ =>
    match clients[t]? with
    | none => ⟨world, clients, finished⟩
    | some client =>
      match world.threads[t]? with
      | some .idle =>
        let (client, call, done) := client.next p finished
        let clients := clients.setIfInBounds t client
        let finished := if done then finished + 1 else finished
        match call with
        | none => ⟨world, clients, finished⟩
        | some call => ⟨(world.move t (.call call)).1, clients, finished⟩
      | _ =>
        match world.move t .step with
        | (world, some (.answered a)) =>
          ⟨world, clients.setIfInBounds t (client.receive a), finished⟩
        | (world, _) => ⟨world, clients, finished⟩

/-- How many moves a thread has in a turn. A turn may well end amid a call. -/
def turnLength : Nat := 8

def turn (p : Plan) (s : State) (t : Nat) : State :=
  turnLength.repeat (fun s => move p s t) s

def round (p : Plan) (s : State) : State :=
  (List.range (p.producers + p.consumers)).foldl (turn p) s

def State.over (s : State) : Bool := s.clients.all fun
  | .finished => true
  | .stopped _ => true
  | _ => false

/-- Rounds until all clients are through, at most `n`. -/
def runFor (p : Plan) : Nat → State → State
  | 0, s => s
  | n + 1, s => if s.over then s else runFor p n (round p s)

def run (p : Plan) : State :=
  runFor p (100 * (p.producers * (p.items + 1) + p.consumers + 1)) (start p)

def State.received (s : State) : List (List Parcel) :=
  s.clients.toList.filterMap fun
    | .consuming _ received => some received.reverse
    | .stopped received => some received.reverse
    | _ => none

/-! ### Tallies -/

structure Tally where
  total : Nat
  distinct : Nat
  counts : List Nat
  sums : List Nat
  ordered : Bool

def increasing : List Nat → Bool
  | a :: b :: r => a < b && increasing (b :: r)
  | _ => true

def tally (producers : Nat) (received : List (List Parcel)) : Tally :=
  let all := received.flatten
  let seqs (p : Nat) (l : List Parcel) := (l.filter (·.producer = p)).map Parcel.seq
  let sorted := (List.range producers).map fun p => (seqs p all).mergeSort (· ≤ ·)
  { total := all.length
    distinct := (sorted.flatMap List.eraseReps).length
    counts := sorted.map List.length
    sums := sorted.map fun l => l.foldl (· + ·) 0
    ordered := received.all fun l => (List.range producers).all fun p => increasing (seqs p l) }

end Handover

end QueueRace
