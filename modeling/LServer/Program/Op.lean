import LServer.Vm.Machine

set_option autoImplicit false

namespace LServer

inductive OpKind where
  | downloadOp | lockOp | unlockOp | sleepOp | loopOp
  deriving DecidableEq, Repr

def OpKind.name : OpKind → Bytes
  | .downloadOp => ascii "DOWNLOAD"
  | .lockOp => ascii "LOCK"
  | .unlockOp => ascii "UNLOCK"
  | .sleepOp => ascii "SLEEP"
  | .loopOp => ascii "LOOP"

def lsvmOps : List OpKind := [.downloadOp, .lockOp, .unlockOp, .sleepOp, .loopOp]

structure BaseOp where
  kind : OpKind
  execPoint : Nat
  operand : Nat
  deriving DecidableEq, Repr

abbrev OpPtr := Option BaseOp

def OpList.instantiate : List OpKind → Bytes → Nat → Nat → OpPtr
  | [], _, _, _ => none
  | h :: t, name, execPoint, operand =>
    if name = h.name then some ⟨h, execPoint, operand⟩ else OpList.instantiate t name execPoint operand

theorem instantiate_eq_none {name : Bytes} {execPoint operand : Nat} :
    OpList.instantiate lsvmOps name execPoint operand = none ↔ ∀ k ∈ lsvmOps, name ≠ k.name := by
  simp only [lsvmOps, OpList.instantiate]
  split_ifs <;> simp_all

def opCompare (left right : BaseOp) : Bool := left.execPoint > right.execPoint

/-- `OpCompare` through two `OpPtr`s: a null pointer on either side is undefined. -/
def opPtrCompare : OpPtr → OpPtr → Outcome Bool
  | some left, some right => .ok (opCompare left right)
  | _, _ => .undefined

/-! ### The vector of `instructions_`

`std::priority_queue<OpPtr, std::vector<OpPtr>, OpCompare>` keeps its vector a heap with
libstdc++'s algorithms (`bits/stl_heap.h`). Each `while` loop gets one iteration more than it can
take; running out is `hangs`, which never happens (`pushHeapLoop_ok`, `adjustHeapLoop_ok`). -/

/-- The loop of `std::__push_heap`: parents that compare before `value` move down. -/
def pushHeapLoop : Nat → List OpPtr → Nat → Nat → OpPtr → Outcome (List OpPtr)
  | 0, _, _, _, _ => .hangs
  | fuel + 1, v, hole, top, value =>
    if top < hole then do
      let parent := (hole - 1) / 2
      if ← opPtrCompare (v.getD parent none) value then
        pushHeapLoop fuel (v.set hole (v.getD parent none)) parent top value
      else pure (v.set hole value)
    else pure (v.set hole value)

def pushHeap (v : List OpPtr) (hole top : Nat) (value : OpPtr) : Outcome (List OpPtr) :=
  pushHeapLoop (hole + 1) v hole top value

/-- The loop of `std::__adjust_heap`: the hole descends to the child served first. -/
def adjustHeapLoop : Nat → List OpPtr → Nat → Nat → Outcome (List OpPtr × Nat)
  | 0, _, _, _ => .hangs
  | fuel + 1, v, hole, len =>
    if hole < (len - 1) / 2 then do
      let second := 2 * (hole + 1)
      let child := if ← opPtrCompare (v.getD second none) (v.getD (second - 1) none)
        then second - 1 else second
      adjustHeapLoop fuel (v.set hole (v.getD child none)) child len
    else pure (v, hole)

def adjustHeap (v : List OpPtr) (hole len : Nat) (value : OpPtr) : Outcome (List OpPtr) := do
  let (v, h) ← adjustHeapLoop (len + 1) v hole len
  if len % 2 = 0 ∧ h = (len - 2) / 2 then
    pushHeap (v.set h (v.getD (2 * (h + 1) - 1) none)) (2 * (h + 1) - 1) hole value
  else pushHeap v h hole value

def emplace (v : List OpPtr) (op : OpPtr) : Outcome (List OpPtr) :=
  pushHeap (v ++ [op]) v.length 0 op

def popHeap (v : List OpPtr) : Outcome (List OpPtr) :=
  if 1 < v.length then
    List.dropLast <$> adjustHeap (v.set (v.length - 1) (v.getD 0 none)) 0 (v.length - 1)
      (v.getD (v.length - 1) none)
  else pure v.dropLast

/-- The elements in the order `top()` and `pop()` serve them, for at most `fuel` pops. -/
def serveOrder : Nat → List OpPtr → Outcome (List OpPtr)
  | _, [] => .ok []
  | 0, _ :: _ => .hangs
  | fuel + 1, top :: rest => do
    let v ← popHeap (top :: rest)
    (top :: ·) <$> serveOrder fuel v

end LServer
