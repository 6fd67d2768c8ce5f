import LServer.Program.Feed
import LServer.Text.Json

set_option autoImplicit false

namespace LServer

namespace Json

def items : Json → List Json
  | .array es => es
  | .object ms => ms.map Prod.snd
  | .null => []
  | j => [j]

def toObject : Json → Option (List (Bytes × Json))
  | .object ms => some ms
  | _ => none

def toStr : Json → Option Bytes
  | .string s => some s
  | _ => none

def toStringMap : Json → Option (List (Bytes × Bytes))
  | .object ms => ms.mapM fun m => (m.1, ·) <$> m.2.toStr
  | _ => none

end Json

def pushLine (q : List OpPtr) (kv : Bytes × Json) : Outcome (List OpPtr) :=
  match stoul kv.1 with
  | none => .thrown
  | some execPoint =>
    match kv.2.toStringMap with
    | none => .thrown
    | some [] => .undefined
    | some ((opcode, operand) :: _) =>
      match stoul operand with
      | none => .thrown
      | some operand => emplace q (OpList.instantiate lsvmOps opcode execPoint operand)

/-- The body of `Program::Program(std::string_view json_str)`, with the order it serves. -/
def programOfText (text : Bytes) : Outcome (List OpPtr) :=
  match Json.parse text with
  | none => .thrown
  | some j => do
    let heap ← j.items.foldlM (fun q inst =>
      match inst.toObject with
      | none => .thrown
      | some line => line.foldlM pushLine q) []
    serveOrder heap.length heap

inductive ParseStatus where
  | success (program : Program) (consumeLen : Nat)
  | needMoreData
  | failed
  deriving DecidableEq, Repr

def findNewline (data : Nat → UInt8) (len : Nat) : Option Nat :=
  (List.range len).find? fun i => data i == 10

/-- `Program::try_parse(program, consume_len, data, len)`. -/
def tryParse (data : Nat → UInt8) (len : Nat) : Outcome ParseStatus :=
  match findNewline data len with
  | none => .ok .needMoreData
  | some pheaderEnd =>
    match stoul ((List.range pheaderEnd).map data) with
    | none => .ok .failed
    | some progLen =>
      if progLen > len then .ok .needMoreData
      else if progLen = 0 then .ok .failed
      else
        match programOfText ((List.range progLen).map fun i => data (pheaderEnd + 1 + i)) with
        | .ok q => .ok (.success (Program.moveAssign { Program.empty with instructions := q })
            (pheaderEnd + 1 + progLen))
        | .thrown => .ok .failed
        | .undefined => .undefined
        | .hangs => .hangs

def bufferAt (buf : Bytes) (past : Nat → UInt8) (i : Nat) : UInt8 :=
  if h : i < buf.length then buf.get ⟨i, h⟩ else past (i - buf.length)

section Framing
variable {buf : Bytes} {past : Nat → UInt8}

theorem bufferAt_of_lt {i : Nat} (h : i < buf.length) : bufferAt buf past i = buf[i] := by
  simp [bufferAt, h]

theorem map_range_bufferAt {k n : Nat} (h : k + n ≤ buf.length) :
    (List.range n).map (fun i => bufferAt buf past (k + i)) = (buf.drop k).take n := by
  apply List.ext_getElem
  · simp; omega
  · intro i h1 h2
    simp only [List.length_map, List.length_range] at h1
    simp [bufferAt, show k + i < buf.length by omega]

theorem tryParse_success {data : Nat → UInt8} {len : Nat} {p : Program} {c : Nat}
    (h : tryParse data len = .ok (.success p c)) :
    ∃ e n, findNewline data len = some e ∧ stoul ((List.range e).map data) = some n ∧
      0 < n ∧ n ≤ len ∧ c = e + 1 + n ∧
      ∃ q, p = Program.moveAssign { Program.empty with instructions := q } := by
  unfold tryParse at h
  split at h
  · cases h
  · rename_i e he
    split at h
    · cases h
    · rename_i n hn
      split at h
      · cases h
      · split at h
        · cases h
        · split at h <;> cases h
          exact ⟨e, n, he, hn, by omega, by omega, rfl, _, rfl⟩

/-- A length line, a newline and the program text: `try_parse` consumes exactly these. -/
theorem tryParse_framed {n : Nat} {j rest : Bytes} {q : List OpPtr} (hn : 0 < n)
    (hn' : n < 2 ^ 64) (hj : j.length = n) (hq : programOfText j = .ok q)
    (hbuf : buf = decimal n ++ 10 :: (j ++ rest)) :
    tryParse (bufferAt buf past) buf.length =
      .ok (.success (Program.moveAssign { Program.empty with instructions := q })
        ((decimal n).length + 1 + n)) := by
  have hlen : buf.length = (decimal n).length + 1 + n + rest.length := by
    simp [hbuf, hj]; omega
  have hnl : findNewline (bufferAt buf past) buf.length = some (decimal n).length := by
    simp only [findNewline, List.find?_range_eq_some, List.mem_range, beq_iff_eq]
    refine ⟨?_, by omega, fun i hi => ?_⟩
    · rw [bufferAt_of_lt (by omega)]
      simp only [hbuf, List.getElem_append_right (le_refl _), Nat.sub_self, List.getElem_cons_zero]
    · rw [bufferAt_of_lt (by omega)]
      simpa [hbuf, List.getElem_append_left hi] using
        isDigit_ne_newline (decimal_digits n _ (List.get_mem _ i hi))
  have hhead : (List.range (decimal n).length).map (bufferAt buf past) = decimal n := by
    have h := @map_range_bufferAt buf past 0 (decimal n).length
      (by omega)
    simp only [Nat.zero_add, List.drop_zero] at h
    exact h.trans (by simp [hbuf])
  have htext : (List.range n).map (fun i => bufferAt buf past ((decimal n).length + 1 + i)) =
      j := by
    rw [map_range_bufferAt (by omega)]
    simp [hbuf, ← hj, List.drop_append_of_le_length]
  simp only [tryParse, hnl, hhead, stoul_decimal hn', htext, hq]
  simp [show ¬ buf.length < n by omega, Nat.pos_iff_ne_zero.mp hn]

theorem tryParse_framed_empty_program :
    tryParse (bufferAt (decimal 2 ++ 10 :: (ascii "[]" ++ ascii "xy")) fun _ => 0)
        (decimal 2 ++ 10 :: (ascii "[]" ++ ascii "xy")).length =
      .ok (.success (Program.moveAssign { Program.empty with instructions := [] })
        ((decimal 2).length + 1 + 2)) :=
  @tryParse_framed _ _ 2 (ascii "[]") (ascii "xy") [] (by decide) (by decide) rfl rfl rfl

end Framing

/-- The length check compares `prog_len` with `len`, so the text can run past the buffer. -/
theorem tryParse_reads_past_len :
    tryParse (bufferAt (ascii "3\n[]") fun _ => 32) 4 = .ok (.success Program.empty 5) ∧
    tryParse (bufferAt (ascii "3\n[]") fun _ => 120) 4 = .ok .failed := by
  decide

/-- An opcode not in `LSVMOps` queues the null `OpPtr` of `OpList<>::instantiate`. -/
theorem tryParse_unknown_opcode :
    tryParse (bufferAt (ascii "19\n[\x7b\"0\":\x7b\"FOO\":\"1\"\x7d\x7d]") fun _ => 0) 22 =
      .ok (.success { Program.empty with instructions := [none] } 22) ∧
    ∀ len eof, { Program.empty with instructions := [none], vm := true }.feed len eof =
      .undefined := by
  refine ⟨by decide, fun len eof => ?_⟩
  simp [Program.feed, Program.feedLoop_null, Program.empty]

/-- An instruction due one byte into the stream makes the first `feed` spin. -/
theorem feed_spins_on_pending_instruction :
    tryParse (bufferAt (ascii "24\n[\x7b\"1\":\x7b\"DOWNLOAD\":\"5\"\x7d\x7d]") fun _ => 0) 27 =
      .ok (.success { Program.empty with instructions := [some ⟨.downloadOp, 1, 5⟩] } 27) ∧
    ∀ n, { Program.empty with instructions := [some ⟨.downloadOp, 1, 5⟩], vm := true }.feedLoop n =
      .hangs := by
  exact ⟨by decide, Program.feedLoop_not_due rfl rfl (by decide)⟩

end LServer
