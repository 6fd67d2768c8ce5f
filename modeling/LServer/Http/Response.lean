import LServer.Program.Feed
import LServer.Text.Decimal

/-!
The response side of `Http`: `DynamicString::printf`, the header `prepare` writes, the download.
`content_length_` is a `size_t` passed where `%d` reads an `int`: on x86-64 its low 32 bits.
-/

set_option autoImplicit false

namespace LServer

/-- A `DynamicString`: its capacity and the bytes between its start and end. -/
structure DynamicString where
  capacity : Nat
  contents : Bytes
  deriving DecidableEq, Repr

namespace DynamicString

def size (d : DynamicString) : Nat := d.contents.length

def clear (d : DynamicString) : DynamicString := { d with contents := [] }

def resize (d : DynamicString) (sz : Nat) : DynamicString := { d with capacity := sz }

def fill (d : DynamicString) (count : Nat) : DynamicString :=
  { d with contents := List.replicate count 0 }

def grownCapacity (d : DynamicString) (n : Nat) : Nat :=
  if n + d.size < d.capacity * 2 ∧ d.capacity ≤ 512 then d.capacity * 2 else n + d.size

def printfLoop : Nat → DynamicString → Bytes → Outcome (Nat × DynamicString)
  | 0, _, _ => .hangs
  | fuel + 1, d, out =>
    if out.length ≥ d.capacity - d.size then printfLoop fuel (d.resize (d.grownCapacity out.length)) out
    else .ok (out.length, { d with contents := d.contents ++ out })

def printf (d : DynamicString) (out : Bytes) : Outcome (Nat × DynamicString) := printfLoop 3 d out

@[simp] theorem resize_size (d : DynamicString) (sz : Nat) : (d.resize sz).size = d.size := rfl
@[simp] theorem resize_capacity (d : DynamicString) (sz : Nat) : (d.resize sz).capacity = sz := rfl
@[simp] theorem resize_contents (d : DynamicString) (sz : Nat) :
    (d.resize sz).contents = d.contents := rfl

theorem printfLoop_fixed {d : DynamicString} {out : Bytes}
    (hc : d.capacity = out.length + d.size) (hg : d.grownCapacity out.length = d.capacity) :
    ∀ k, printfLoop k d out = .hangs := by
  intro k
  induction k with
  | zero => rfl
  | succ k ih =>
    have hr : d.resize (d.grownCapacity out.length) = d := by rw [hg]; rfl
    simp only [printfLoop, show out.length ≥ d.capacity - d.size by omega, if_true, hr, ih]

theorem grownCapacity_cases (d : DynamicString) (n : Nat) :
    (d.grownCapacity n = d.capacity * 2 ∧ n + d.size < d.capacity * 2 ∧ d.capacity ≤ 512) ∨
      (d.grownCapacity n = n + d.size ∧ ¬(n + d.size < d.capacity * 2 ∧ d.capacity ≤ 512)) := by
  unfold grownCapacity
  split_ifs with h
  · exact .inl ⟨rfl, h⟩
  · exact .inr ⟨rfl, h⟩

theorem grownCapacity_eq_of_full {d : DynamicString} {n : Nat} (h : d.grownCapacity n ≤ n + d.size) :
    d.grownCapacity n = n + d.size := by
  unfold grownCapacity at h ⊢
  split_ifs at h ⊢ <;> omega

theorem printfLoop_fits {k : Nat} {d : DynamicString} {out : Bytes}
    (h : out.length < d.capacity - d.size) :
    printfLoop (k + 1) d out = .ok (out.length, { d with contents := d.contents ++ out }) := by
  rw [printfLoop, if_neg (Nat.not_le.mpr h)]

theorem printfLoop_full {k : Nat} {d : DynamicString} {out : Bytes}
    (h : d.capacity - d.size ≤ out.length) :
    printfLoop (k + 1) d out = printfLoop k (d.resize (d.grownCapacity out.length)) out := by
  rw [printfLoop, if_pos h]

theorem printfLoop_stable (d : DynamicString) (out : Bytes) (k : Nat) :
    printfLoop (k + 3) d out = printfLoop 3 d out := by
  by_cases h1 : out.length < d.capacity - d.size
  · rw [printfLoop_fits h1, printfLoop_fits h1]
  rw [printfLoop_full (Nat.le_of_not_lt h1), printfLoop_full (Nat.le_of_not_lt h1)]
  by_cases h2 : out.length < d.grownCapacity out.length - d.size
  · rw [printfLoop_fits (d := d.resize (d.grownCapacity out.length)) h2,
      printfLoop_fits (d := d.resize (d.grownCapacity out.length)) h2]
  rw [grownCapacity_eq_of_full (by omega)]
  have hfull : (d.resize (out.length + d.size)).capacity - (d.resize (out.length + d.size)).size ≤
      out.length := by simp
  rw [printfLoop_full hfull, printfLoop_full hfull]
  let d₁ := d.resize (out.length + d.size)
  by_cases h3 : out.length < (d₁.grownCapacity out.length) - d.size
  · rw [printfLoop_fits (d := d₁.resize (d₁.grownCapacity out.length)) h3,
      printfLoop_fits (d := d₁.resize (d₁.grownCapacity out.length)) h3]
  have hs : d₁.size = d.size := rfl
  have e2 : d₁.grownCapacity out.length = out.length + d₁.size :=
    grownCapacity_eq_of_full (by omega)
  have hc : (d₁.resize (d₁.grownCapacity out.length)) = d₁ := by rw [e2]; rfl
  rw [hc]
  exact (printfLoop_fixed rfl e2 (k + 1)).trans (printfLoop_fixed rfl e2 1).symm

theorem printf_appends {d : DynamicString} {out : Bytes} (hn : 0 < out.length)
    (hs : d.size + out.length ≤ 512) :
    ∃ c, d.printf out = .ok (out.length, ⟨c, d.contents ++ out⟩) ∧ d.size + out.length < c := by
  unfold printf
  by_cases h1 : out.length < d.capacity - d.size
  · exact ⟨_, printfLoop_fits h1, by omega⟩
  rw [printfLoop_full (Nat.le_of_not_lt h1)]
  rcases grownCapacity_cases d out.length with ⟨e, he, -⟩ | ⟨e, he⟩ <;> rw [e]
  · exact ⟨_, printfLoop_fits (by simp; omega), by simp; omega⟩
  · have hfull : (d.resize (out.length + d.size)).capacity - (d.resize (out.length + d.size)).size ≤
        out.length := by simp
    rw [printfLoop_full hfull]
    rcases grownCapacity_cases (d.resize (out.length + d.size)) out.length with ⟨e', -⟩ | ⟨-, h'⟩
    · rw [e']
      exact ⟨_, printfLoop_fits (by simp; omega), by simp; omega⟩
    · simp only [resize_capacity, resize_size] at h'
      omega

/-- An output past 512 bytes that the first resize cannot fit makes `printf` retry forever. -/
theorem printf_hangs_past_512 {d : DynamicString} {out : Bytes}
    (hfull : d.capacity - d.size ≤ out.length)
    (hgrow : 512 < d.capacity ∨ d.capacity * 2 ≤ out.length + d.size)
    (hbig : 512 < out.length + d.size) : d.printf out = .hangs := by
  have e : d.grownCapacity out.length = out.length + d.size :=
    (grownCapacity_cases d out.length).elim (fun ⟨_, _, _⟩ => by omega) (·.1)
  let d₁ := d.resize (out.length + d.size)
  have e₁ : d₁.grownCapacity out.length = d₁.capacity :=
    (grownCapacity_cases d₁ out.length).elim
      (fun ⟨_, _, h⟩ => by have h' : out.length + d.size ≤ 512 := h; omega) (·.1)
  rw [printf, printfLoop_full hfull, e]
  exact printfLoop_fixed rfl e₁ 2

theorem printf_hangs_on_700_bytes :
    (⟨600, []⟩ : DynamicString).printf (List.replicate 700 0) = .hangs :=
  printf_hangs_past_512 (by simp only [size, List.length_nil, List.length_replicate]; decide)
    (.inl (by decide)) (by simp only [size, List.length_nil, List.length_replicate]; decide)

end DynamicString

def lowInt (n : Nat) : Int :=
  if n % 2 ^ 32 < 2 ^ 31 then ((n % 2 ^ 32 : Nat) : Int) else ((n % 2 ^ 32 : Nat) : Int) - 2 ^ 32

/-- What `%d` prints for an `int`. -/
def formatInt (v : Int) : Bytes := if v < 0 then 45 :: decimal v.natAbs else decimal v.toNat

theorem lowInt_natAbs_le (n : Nat) : (lowInt n).natAbs ≤ 2 ^ 31 := by
  unfold lowInt
  have := Nat.mod_lt n (show 2 ^ 32 > 0 by norm_num)
  split <;> omega

theorem formatInt_lowInt_length_le (n : Nat) : (formatInt (lowInt n)).length ≤ 11 := by
  have h := lowInt_natAbs_le n
  unfold formatInt
  split
  · simpa using decimal_length_le (n := (lowInt n).natAbs) (k := 10) (by norm_num) (by omega)
  · exact (decimal_length_le (k := 10) (by norm_num) (by omega)).trans (by norm_num)

/-- `%d` of a `size_t` prints its decimal exactly when it is below 2^31. -/
theorem formatInt_lowInt_eq_decimal_iff (n : Nat) :
    formatInt (lowInt n) = decimal n ↔ n < 2 ^ 31 := by
  have hm := Nat.mod_lt n (show 2 ^ 32 > 0 by norm_num)
  by_cases h1 : n % 2 ^ 32 < 2 ^ 31
  · have hl : formatInt (lowInt n) = decimal (n % 2 ^ 32) := by
      simp only [formatInt, lowInt, h1, if_true]
      rw [if_neg (by omega)]
      rfl
    rw [hl]
    exact ⟨fun h => by have := decimal_injective h; omega,
      fun h => by rw [Nat.mod_eq_of_lt (by omega)]⟩
  · have hl : formatInt (lowInt n) = 45 :: decimal (lowInt n).natAbs := by
      simp only [formatInt, lowInt, h1, if_false]
      rw [if_pos (by omega)]
    rw [hl]
    refine ⟨fun h => ?_, fun h => by omega⟩
    exact absurd (decimal_digits n 45 (h ▸ List.mem_cons_self _ _)) (by decide)

def statusCodeReason : List (Int × String) :=
  [(100, "Continue"), (101, "Switching Protocols"), (200, "OK"), (201, "Created"),
    (202, "Accepted"), (203, "Non-Authoritative Information"), (204, "No Content"),
    (205, "Reset Content"), (206, "Partial Content"), (300, "Multiple Choices"),
    (301, "Moved Permanently"), (302, "Found"), (303, "See Other"), (304, "Not Modified"),
    (305, "Use Proxy"), (307, "Temporary Redirect"), (400, "Bad Request"), (401, "Unauthorized"),
    (402, "Payment Required"), (403, "Forbidden"), (404, "Not Found"),
    (405, "Method Not Allowed"), (406, "Not Acceptable"), (407, "Proxy Authentication Required"),
    (408, "Request Time-out"), (409, "Conflict"), (410, "Gone"), (411, "Length Required"),
    (412, "Precondition Failed"), (413, "Request Entity Too Large"),
    (414, "Request-URI Too Large"), (415, "Unsupported Media Type"),
    (416, "Requested range not satisfiable"), (417, "Expectation Failed"),
    (500, "Internal Server Error"), (501, "Not Implemented"), (502, "Bad Gateway"),
    (503, "Service Unavailable"), (504, "Gateway Time-out"), (505, "HTTP Version not supported")]

structure HttpResponseHeader where
  buffer : DynamicString
  contentLength : Nat
  code : Int
  keepAlive : Bool
  sent : Bool
  deriving DecidableEq, Repr

namespace HttpResponseHeader

def init : HttpResponseHeader := ⟨⟨64, []⟩, 0, 0, false, false⟩

def statusLine (code : Int) : Bytes :=
  ascii "HTTP/1.1 " ++ formatInt code ++ ascii " " ++
    ascii ((statusCodeReason.lookup code).getD "")

def contentLengthLine (length : Nat) : Bytes := ascii "Content-Length: " ++ formatInt (lowInt length)

def connectionLine (keepAlive : Bool) : Bytes :=
  ascii "Connection: " ++ ascii (if keepAlive then "Keep-Alive" else "Close")

def newln : Bytes := ascii "\r\n"

def append (b : DynamicString) (out : Bytes) : Outcome DynamicString := Prod.snd <$> b.printf out

def generateHeader (h : HttpResponseHeader) : Outcome HttpResponseHeader := do
  let b ← append h.buffer.clear (statusLine h.code)
  let b ← append b newln
  let b ← append b (contentLengthLine h.contentLength)
  let b ← append b newln
  let b ← append b (connectionLine h.keepAlive)
  let b ← append b newln
  let b ← append b newln
  pure { h with buffer := b }

def prepare (h : HttpResponseHeader) (code : Int) (length : Nat) (keepAlive : Bool) :
    Outcome HttpResponseHeader :=
  generateHeader { h with code := code, contentLength := length, keepAlive := keepAlive }

def reset (h : HttpResponseHeader) : HttpResponseHeader := { h with sent := false }

def setSent (h : HttpResponseHeader) : HttpResponseHeader := { h with sent := true }

theorem append_ok {d : DynamicString} {out : Bytes} (hn : 0 < out.length)
    (hs : d.size + out.length ≤ 512) : ∃ c, append d out = .ok ⟨c, d.contents ++ out⟩ := by
  obtain ⟨c, hc, -⟩ := DynamicString.printf_appends hn hs
  exact ⟨c, by simp [append, hc]⟩

theorem foldlM_append {outs : List Bytes} (hn : ∀ o ∈ outs, 0 < o.length) :
    ∀ {d : DynamicString}, d.size + (outs.map List.length).sum ≤ 512 →
      ∃ c, outs.foldlM append d = .ok ⟨c, d.contents ++ outs.flatten⟩ := by
  induction outs with
  | nil => exact fun {d} _ => ⟨d.capacity, by simp⟩
  | cons o outs ih =>
    intro d hs
    simp only [List.map_cons, List.sum_cons] at hs
    obtain ⟨c, hc⟩ := append_ok (d := d) (hn o (List.mem_cons_self _ _)) (by omega)
    have hs' : (⟨c, d.contents ++ o⟩ : DynamicString).size + (outs.map List.length).sum ≤ 512 := by
      simp only [DynamicString.size, List.length_append] at hs ⊢; omega
    obtain ⟨c', hc'⟩ := ih (fun o ho => hn o (List.mem_cons_of_mem _ ho)) hs'
    exact ⟨c', by simp [hc, hc']⟩

def headerLines (h : HttpResponseHeader) : List Bytes :=
  [statusLine h.code, newln, contentLengthLine h.contentLength, newln, connectionLine h.keepAlive,
    newln, newln]

theorem generateHeader_eq (h : HttpResponseHeader) :
    h.generateHeader = (fun b => { h with buffer := b }) <$> h.headerLines.foldlM append h.buffer.clear := by
  simp [generateHeader, headerLines]

theorem headerLines_pos (h : HttpResponseHeader) : ∀ o ∈ h.headerLines, 0 < o.length := by
  have hpos : ∀ a b : Bytes, 0 < a.length → 0 < (a ++ b).length := fun a b ha => by
    rw [List.length_append]; omega
  simp only [headerLines, List.mem_cons, List.mem_nil_iff, or_false, forall_eq_or_imp, forall_eq,
    statusLine, contentLengthLine, connectionLine]
  exact ⟨hpos _ _ (hpos _ _ (hpos _ _ (by decide))), by decide, hpos _ _ (by decide), by decide,
    hpos _ _ (by decide), by decide, by decide⟩

theorem prepare_contents (h : HttpResponseHeader) (length : Nat) (keepAlive : Bool) :
    ∃ c, h.prepare 200 length keepAlive =
      .ok { h with
        buffer := ⟨c, ascii "HTTP/1.1 200 OK\r\nContent-Length: " ++ formatInt (lowInt length) ++
          ascii "\r\nConnection: " ++ ascii (if keepAlive then "Keep-Alive" else "Close") ++
          ascii "\r\n\r\n"⟩
        code := 200
        contentLength := length
        keepAlive := keepAlive } := by
  have hcl : (contentLengthLine length).length = 16 + (formatInt (lowInt length)).length := by
    simp [contentLengthLine, ascii]; omega
  have hcn : (connectionLine keepAlive).length ≤ 22 := by cases keepAlive <;> decide
  have hst : (statusLine 200).length = 15 := by decide
  have hnl : newln.length = 2 := rfl
  obtain ⟨c, hc⟩ := foldlM_append
    (headerLines_pos { h with code := 200, contentLength := length, keepAlive := keepAlive })
    (d := h.buffer.clear) (by
      have := formatInt_lowInt_length_le length
      simp only [headerLines, List.map_cons, List.map_nil, List.sum_cons, List.sum_nil, hst, hcl,
        hnl, DynamicString.size, DynamicString.clear, List.length_nil]
      omega)
  refine ⟨c, ?_⟩
  rw [prepare, generateHeader_eq, hc]
  have e1 : ascii "HTTP/1.1 200 OK\r\nContent-Length: " =
      statusLine 200 ++ newln ++ ascii "Content-Length: " := by decide
  have e2 : ascii "\r\nConnection: " = newln ++ ascii "Connection: " := by decide
  have e3 : ascii "\r\n\r\n" = newln ++ newln := by decide
  simp [e1, e2, e3, headerLines, contentLengthLine, connectionLine, DynamicString.clear]

end HttpResponseHeader

/-- A download of 2^31 bytes announces a negative `Content-Length`. -/
theorem content_length_line_wraps :
    stoul (ascii "2147483648") = some (2 ^ 31) ∧
    HttpResponseHeader.init.prepare 200 (2 ^ 31) true =
      .ok ⟨⟨128, ascii "HTTP/1.1 200 OK\r\nContent-Length: -2147483648\r\nConnection: Keep-Alive\r\n\r\n"⟩,
        2 ^ 31, 200, true, false⟩ := by
  decide

end LServer
