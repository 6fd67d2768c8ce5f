import LServer.Basic
import Mathlib.Logic.Function.Basic
set_option autoImplicit false

namespace LServer

/-- `POI`, the identity a borrower gives; `POI{}` is zero. -/
abbrev POI := Nat

def poiInvalid : POI := 18446744073709551615

/-- A pool's state: the arguments of each `create`, `all_items_`, the free stack, the waiters. -/
structure Pool (A : Type) where
  maxSize : Nat
  made : List A
  pool : List Nat
  callbackActive : Bool
  allItems : Nat → POI
  numItemsInFlight : Nat
  numItemsTotal : Nat

namespace Pool

variable {A : Type}

def empty (maxSize : Nat) : Pool A := ⟨maxSize, [], [], false, fun _ => 0, 0, 0⟩

def create (p : Pool A) (a : A) : Nat × Pool A := (p.made.length, { p with made := p.made ++ [a] })

def subscribe (p : Pool A) (i : Nat) : Pool A :=
  { p with
    allItems := Function.update p.allItems i 0
    numItemsInFlight := p.numItemsInFlight + 1
    numItemsTotal := p.numItemsTotal + 1 }

def insert (p : Pool A) (i : Nat) : Pool A × Option Nat :=
  if p.callbackActive then ({ p with callbackActive := false }, some i)
  else
    ({ p with
      pool := i :: p.pool
      allItems := Function.update p.allItems i poiInvalid
      numItemsInFlight := p.numItemsInFlight - 1 }, none)

def add (p : Pool A) (i : Nat) : Pool A :=
  ({ p with numItemsTotal := p.numItemsTotal + 1 }.subscribe i).insert i |>.1

def new (maxSize : Nat) (eager : Bool) (a : A) : Outcome (Pool A) :=
  if maxSize = 0 ∧ eager = true then .thrown
  else if eager then
    .ok ((List.range maxSize).foldl (fun p _ => (p.create a).2.add (p.create a).1) (empty maxSize))
  else .ok (empty maxSize)

def tryBorrow (p : Pool A) (id : POI) (a : A) : Option Nat × Pool A :=
  match p.pool with
  | i :: rest =>
    (some i, { p with
      pool := rest
      numItemsInFlight := p.numItemsInFlight + 1
      allItems := Function.update p.allItems i id })
  | [] =>
    if p.maxSize = 0 ∨ p.numItemsInFlight < p.maxSize then
      let q := ((p.create a).2.subscribe (p.create a).1)
      (some (p.create a).1, { q with allItems := Function.update q.allItems (p.create a).1 id })
    else (none, p)

/-- `borrow(id, args...)`. -/
def borrow (p : Pool A) (id : POI) (a : A) : Option Nat × Pool A := p.tryBorrow id a

def borrowCallback (p : Pool A) (id : POI) (a : A) : Outcome (Option Nat × Pool A) :=
  match p.tryBorrow id a with
  | (some i, q) => .ok (some i, q)
  | (none, q) =>
    if q.callbackActive then .thrown else .ok (none, { q with callbackActive := true })

def putBack (p : Pool A) (i : Nat) : Pool A × Option Nat := p.insert i

def recover (p : Pool A) (id : POI) : List Nat :=
  (List.range p.made.length).filter fun i => p.allItems i = id

theorem foldl_add (maxSize : Nat) (a : A) (k : Nat) :
    (List.range k).foldl (fun p _ => (p.create a).2.add (p.create a).1) (empty maxSize) =
      ⟨maxSize, List.replicate k a, (List.range k).reverse, false,
        fun i => if i < k then poiInvalid else 0, 0, 2 * k⟩ := by
  induction k with
  | zero => rfl
  | succ k ih =>
    rw [List.range_succ, List.foldl_append, ih]
    simp only [List.foldl_cons, List.foldl_nil, create, add, subscribe, insert, Bool.false_eq_true,
      if_false, List.length_replicate, List.replicate_succ', List.range_succ, List.reverse_append,
      List.reverse_cons, List.reverse_nil, List.nil_append, List.singleton_append]
    congr 1
    · funext i
      by_cases h : i = k
      · subst h; simp
      · simp only [Function.update_noteq h, show i < k + 1 ↔ i < k by omega]

theorem tryBorrow_isSome_of_unbounded (p : Pool A) (id : POI) (a : A) (h : p.maxSize = 0) :
    (p.tryBorrow id a).1.isSome := by
  unfold tryBorrow
  split
  · rfl
  · rw [if_pos (Or.inl h)]; rfl

theorem tryBorrow_of_cons {p : Pool A} {i : Nat} {rest : List Nat} (h : p.pool = i :: rest)
    (id : POI) (a : A) :
    p.tryBorrow id a = (some i, { p with
      pool := rest
      numItemsInFlight := p.numItemsInFlight + 1
      allItems := Function.update p.allItems i id }) := by
  simp only [tryBorrow, h]

theorem tryBorrow_of_room {p : Pool A} (h : p.pool = [])
    (hr : p.maxSize = 0 ∨ p.numItemsInFlight < p.maxSize) (id : POI) (a : A) :
    p.tryBorrow id a = (some p.made.length, { p with
      made := p.made ++ [a]
      allItems := Function.update p.allItems p.made.length id
      numItemsInFlight := p.numItemsInFlight + 1
      numItemsTotal := p.numItemsTotal + 1 }) := by
  simp only [tryBorrow, h, if_pos hr, create, subscribe, Function.update_idem]

theorem tryBorrow_of_full {p : Pool A} (h : p.pool = [])
    (hr : ¬(p.maxSize = 0 ∨ p.numItemsInFlight < p.maxSize)) (id : POI) (a : A) :
    p.tryBorrow id a = (none, p) := by
  simp only [tryBorrow, h, if_neg hr]

theorem borrowCallback_eq_some {p q : Pool A} {id : POI} {a : A} {i : Nat}
    (h : p.borrowCallback id a = .ok (some i, q)) : (p.tryBorrow id a).1 = some i := by
  unfold borrowCallback at h
  split at h
  · rename_i j q' hj; cases h; rw [hj]
  · split at h <;> cases h

theorem new_eager {maxSize : Nat} (h : 0 < maxSize) (a : A) :
    new maxSize true a = .ok ⟨maxSize, List.replicate maxSize a, (List.range maxSize).reverse,
      false, fun i => if i < maxSize then poiInvalid else 0, 0, 2 * maxSize⟩ := by
  rw [new, if_neg (by omega), if_pos rfl, foldl_add]

end Pool

end LServer
