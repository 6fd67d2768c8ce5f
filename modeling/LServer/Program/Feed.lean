import LServer.Program.Op

set_option autoImplicit false

namespace LServer

/-- The fields of `Program`; `vm` says whether `vm_` is set. -/
structure Program where
  downloadSize : Nat
  resultCode : Int
  finished : Bool
  instructions : List OpPtr
  bytesProcessedCnt : Nat
  vm : Bool
  cancellationRequest : Bool
  deriving DecidableEq, Repr

namespace Program

def empty : Program := ⟨0, 200, false, [], 0, false, false⟩

def sinkhole : Program := empty

def moveAssign (other : Program) : Program := { empty with instructions := other.instructions }

def reset (p : Program) : Program × List VmCall :=
  ({ p with instructions := [], vm := false }, if p.vm then [.cleanup] else [])

def isSet (p : Program) : Bool := p.vm

def getResponse (p : Program) : Int × Nat := (p.resultCode, p.downloadSize)

def kSendBufferSz : Nat := 64 * 1024

def hasMoreData (p : Program) : Bool := 0 < p.downloadSize

def getData (p : Program) : Nat × Program :=
  let n := min kSendBufferSz p.downloadSize
  (n, { p with downloadSize := p.downloadSize - n })

end Program

def BaseOp.run (op : BaseOp) (p : Program) : Program × List VmCall :=
  match op.kind with
  | .downloadOp => ({ p with resultCode := 200, downloadSize := op.operand }, [])
  | .lockOp => (p, [.lock op.operand])
  | .unlockOp => (p, [.unlock op.operand])
  | .sleepOp => (p, [.sleep op.operand])
  | .loopOp => (p, [.loop op.operand])

section Run
variable (op : BaseOp) (p : Program)

@[simp] theorem run_bytesProcessedCnt : (op.run p).1.bytesProcessedCnt = p.bytesProcessedCnt := by
  unfold BaseOp.run; split <;> rfl
@[simp] theorem run_cancellationRequest :
    (op.run p).1.cancellationRequest = p.cancellationRequest := by
  unfold BaseOp.run; split <;> rfl
@[simp] theorem run_vm : (op.run p).1.vm = p.vm := by
  unfold BaseOp.run; split <;> rfl
@[simp] theorem run_instructions : (op.run p).1.instructions = p.instructions := by
  unfold BaseOp.run; split <;> rfl
theorem run_resultCode (h : p.resultCode = 200) : (op.run p).1.resultCode = 200 := by
  unfold BaseOp.run; split <;> simp [h]
theorem run_with_instructions (l : List OpPtr) :
    op.run { p with instructions := l } = ({ (op.run p).1 with instructions := l }, (op.run p).2) := by
  unfold BaseOp.run; split <;> rfl

end Run

namespace Program

def feedLoop : Nat → Program → Outcome (Program × List VmCall)
  | 0, p => if p.cancellationRequest || p.instructions.isEmpty then .ok (p, []) else .hangs
  | n + 1, p =>
    if p.cancellationRequest then .ok (p, [])
    else
      match p.instructions with
      | [] => .ok (p, [])
      | none :: _ => .undefined
      | some op :: rest =>
        if p.bytesProcessedCnt ≥ op.execPoint then
          (fun r => (r.1, (op.run p).2 ++ r.2)) <$>
            feedLoop n { (op.run p).1 with instructions := rest }
        else feedLoop n p

/-- `feed(data, len, eof)`: the count moves on by `len`, and the loop runs. -/
def feed (p : Program) (len : Nat) (eof : Bool) : Outcome (Program × List VmCall) :=
  let p := { p with bytesProcessedCnt := p.bytesProcessedCnt + len }
  (fun r => ({ r.1 with finished := eof }, r.2)) <$> p.feedLoop (p.instructions.length + 1)

theorem feedLoop_not_due {p : Program} {op : BaseOp} {rest : List OpPtr}
    (hc : p.cancellationRequest = false) (hp : p.instructions = some op :: rest)
    (hd : p.bytesProcessedCnt < op.execPoint) (n : Nat) : p.feedLoop n = .hangs := by
  induction n with
  | zero => simp [feedLoop, hc, hp]
  | succ n ih => simp [feedLoop, hc, hp, Nat.not_le.mpr hd, ih]

theorem feedLoop_due {p : Program} {op : BaseOp} {rest : List OpPtr}
    (hc : p.cancellationRequest = false) (hp : p.instructions = some op :: rest)
    (hd : op.execPoint ≤ p.bytesProcessedCnt) (n : Nat) :
    p.feedLoop (n + 1) = (fun r => (r.1, (op.run p).2 ++ r.2)) <$>
      feedLoop n { (op.run p).1 with instructions := rest } := by
  simp [feedLoop, hc, hp, hd]

def drain (p : Program) : List BaseOp → Program × List VmCall
  | [] => ({ p with instructions := [] }, [])
  | op :: ops => ((drain (op.run p).1 ops).1, (op.run p).2 ++ (drain (op.run p).1 ops).2)

theorem drain_with_instructions (p : Program) (l : List OpPtr) (xs : List BaseOp) :
    drain { p with instructions := l } xs = drain p xs := by
  induction xs generalizing p with
  | nil => rfl
  | cons op xs ih => simp only [drain, run_with_instructions, ih]

theorem feedLoop_eq {p : Program} {xs : List BaseOp} (hc : p.cancellationRequest = false)
    (hp : p.instructions = xs.map some) {n : Nat} (hn : xs.length < n) :
    p.feedLoop n =
      if ∀ op ∈ xs, op.execPoint ≤ p.bytesProcessedCnt then .ok (drain p xs) else .hangs := by
  induction xs generalizing p n with
  | nil =>
    obtain ⟨m, rfl⟩ : ∃ m, n = m + 1 := ⟨n - 1, by omega⟩
    cases p
    simp_all [feedLoop, drain]
  | cons op xs ih =>
    obtain ⟨m, rfl⟩ : ∃ m, n = m + 1 := ⟨n - 1, by omega⟩
    have hp' : p.instructions = some op :: xs.map some := by simpa using hp
    by_cases hd : op.execPoint ≤ p.bytesProcessedCnt
    · rw [feedLoop_due hc hp' hd,
        ih (p := { (op.run p).1 with instructions := xs.map some }) (by simpa using hc) rfl
          (by simp only [List.length_cons] at hn; omega), drain_with_instructions]
      simp only [List.mem_cons, forall_eq_or_imp, hd, true_and, run_bytesProcessedCnt]
      split <;> simp [drain]
    · rw [feedLoop_not_due hc hp' (Nat.not_le.mp hd)]
      simp [hd]

/-- `feed` returns exactly when every queued instruction is due after `len` more bytes. -/
theorem feed_eq {p : Program} {xs : List BaseOp} (hc : p.cancellationRequest = false)
    (hp : p.instructions = xs.map some) (len : Nat) (eof : Bool) :
    p.feed len eof =
      if ∀ op ∈ xs, op.execPoint ≤ p.bytesProcessedCnt + len then
        .ok ({ (drain { p with bytesProcessedCnt := p.bytesProcessedCnt + len } xs).1 with
          finished := eof }, (drain { p with bytesProcessedCnt := p.bytesProcessedCnt + len } xs).2)
      else .hangs := by
  have h := feedLoop_eq (p := { p with bytesProcessedCnt := p.bytesProcessedCnt + len })
    (n := p.instructions.length + 1) hc hp (by simp [hp])
  simp only [feed, h]
  split <;> rfl

theorem feed_eq_due_download :
    (fun r => (r.1.instructions, r.1.downloadSize, r.1.bytesProcessedCnt)) <$>
      { Program.empty with instructions := [some ⟨.downloadOp, 1, 5⟩] }.feed 3 true =
      .ok ([], 5, 3) := by
  rw [@feed_eq _ [⟨.downloadOp, 1, 5⟩] rfl rfl 3 true, if_pos (by decide)]
  rfl

theorem feedLoop_frame {n : Nat} {p p' : Program} {calls : List VmCall}
    (h : p.feedLoop n = .ok (p', calls)) :
    p'.bytesProcessedCnt = p.bytesProcessedCnt ∧ p'.vm = p.vm ∧
      (p.resultCode = 200 → p'.resultCode = 200) := by
  induction n generalizing p calls with
  | zero =>
    unfold feedLoop at h
    split at h <;> cases h
    exact ⟨rfl, rfl, id⟩
  | succ n ih =>
    unfold feedLoop at h
    split at h
    · cases h; exact ⟨rfl, rfl, id⟩
    · split at h
      · cases h; exact ⟨rfl, rfl, id⟩
      · cases h
      · split at h
        · obtain ⟨⟨q, cs⟩, hr, he⟩ := Outcome.map_eq_ok h
          obtain ⟨rfl, -⟩ := Prod.mk.inj he
          obtain ⟨h1, h2, h3⟩ := ih hr
          exact ⟨by simpa using h1, by simpa using h2, fun hc => h3 (run_resultCode _ _ hc)⟩
        · exact ih h

theorem feed_frame {p p' : Program} {len : Nat} {eof : Bool} {calls : List VmCall}
    (h : p.feed len eof = .ok (p', calls)) :
    p'.bytesProcessedCnt = p.bytesProcessedCnt + len ∧ p'.vm = p.vm ∧ p'.finished = eof ∧
      (p.resultCode = 200 → p'.resultCode = 200) := by
  obtain ⟨r, hr, hr'⟩ := Outcome.map_eq_ok h
  cases hr'
  obtain ⟨h1, h2, h3⟩ := feedLoop_frame hr
  exact ⟨h1, h2, rfl, h3⟩

theorem feedLoop_null {p : Program} {rest : List OpPtr}
    (hc : p.cancellationRequest = false) (hp : p.instructions = none :: rest) (n : Nat) :
    p.feedLoop (n + 1) = .undefined := by
  simp [feedLoop, hc, hp]

end Program

end LServer
