import LServer.Basic
import Mathlib.Data.List.Infix

/-!
The request side of `Http` (`HttpRequestHeader` in `http_header.hpp`) and `url_prefix`. The
parser `proxygen::http_parser` is a parameter, given by the callbacks it makes on a header block
and the `content_length` it leaves.
-/

set_option autoImplicit false

namespace LServer

def memmem (needle : Bytes) : Bytes → Option Nat
  | [] => none
  | b :: bs => if needle.isPrefixOf (b :: bs) then some 0 else (memmem needle bs).map (· + 1)

section Memmem
variable {needle : Bytes}

theorem memmem_cons (b : UInt8) (bs : Bytes) : memmem needle (b :: bs) =
    if needle.isPrefixOf (b :: bs) then some 0 else (memmem needle bs).map (· + 1) := rfl

theorem memmem_some_le {hay : Bytes} {i : Nat} (h : memmem needle hay = some i) :
    i + needle.length ≤ hay.length := by
  induction hay generalizing i with
  | nil => cases h
  | cons b bs ih =>
    rw [memmem_cons] at h
    split at h
    · cases h
      simpa using (List.isPrefixOf_iff_prefix.mp ‹_›).length_le
    · obtain ⟨j, hj, rfl⟩ := Option.map_eq_some'.mp h
      have := ih hj
      simp only [List.length_cons]
      omega

theorem memmem_append {hay : Bytes} {i : Nat} (h : memmem needle hay = some i) (more : Bytes) :
    memmem needle (hay ++ more) = some i := by
  induction hay generalizing i with
  | nil => cases h
  | cons b bs ih =>
    have hle := memmem_some_le h
    rw [memmem_cons] at h
    rw [List.cons_append, memmem_cons, ← List.cons_append]
    by_cases hp : needle.isPrefixOf (b :: bs)
    · rw [if_pos hp] at h
      cases h
      rw [if_pos (List.isPrefixOf_iff_prefix.mpr
        ((List.isPrefixOf_iff_prefix.mp hp).trans (List.prefix_append _ _)))]
    · rw [if_neg hp] at h
      obtain ⟨j, hj, rfl⟩ := Option.map_eq_some'.mp h
      have hq : ¬ needle.isPrefixOf (b :: bs ++ more) := by
        intro hq
        have := List.prefix_of_prefix_length_le (List.isPrefixOf_iff_prefix.mp hq)
          (List.prefix_append (b :: bs) more) (by simp only [List.length_cons] at hle ⊢; omega)
        exact hp (List.isPrefixOf_iff_prefix.mpr this)
      rw [if_neg hq, ih hj]
      rfl

theorem memmem_take {hay : Bytes} {i k : Nat} (h : memmem needle hay = some i)
    (hk : k < i + needle.length) : memmem needle (hay.take k) = none := by
  induction hay generalizing i k with
  | nil => cases h
  | cons b bs ih =>
    cases k with
    | zero => rfl
    | succ k =>
      rw [memmem_cons] at h
      rw [List.take_succ_cons, memmem_cons]
      have hq : ¬ needle.isPrefixOf (b :: bs.take k) := fun hq => by
        have hlen := (List.isPrefixOf_iff_prefix.mp hq).length_le
        split at h
        · cases h
          simp at hlen
          omega
        · obtain ⟨j, hj, rfl⟩ := Option.map_eq_some'.mp h
          exact ‹¬ _› (List.isPrefixOf_iff_prefix.mpr
            ((List.isPrefixOf_iff_prefix.mp hq).trans (List.take_prefix (k + 1) (b :: bs))))
      rw [if_neg hq]
      split at h
      · cases h
        cases hm : memmem needle (bs.take k) with
        | none => rfl
        | some j => have := memmem_some_le hm; simp at this; omega
      · obtain ⟨j, hj, rfl⟩ := Option.map_eq_some'.mp h
        rw [ih hj (by omega)]
        rfl

end Memmem

def hdrfn : Bytes := ascii "\r\n\r\n"

def findRequestHeaderEndOffset (data : Bytes) : Option Nat := (memmem hdrfn data).map (· + 4)

def IsHeaderBlock (hdr : Bytes) : Prop := memmem hdrfn hdr = some (hdr.length - 4)

instance (hdr : Bytes) : Decidable (IsHeaderBlock hdr) := inferInstanceAs (Decidable (_ = _))

theorem IsHeaderBlock.four_le {hdr : Bytes} (h : IsHeaderBlock hdr) : 4 ≤ hdr.length := by
  have := memmem_some_le (show memmem hdrfn hdr = some (hdr.length - 4) from h)
  have h4 : hdrfn.length = 4 := rfl
  omega

theorem findRequestHeaderEndOffset_append {hdr : Bytes} (h : IsHeaderBlock hdr) (more : Bytes) :
    findRequestHeaderEndOffset (hdr ++ more) = some hdr.length := by
  simp only [findRequestHeaderEndOffset, memmem_append h, Option.map_some']
  have := h.four_le
  congr 1
  omega

theorem findRequestHeaderEndOffset_take {hdr : Bytes} (h : IsHeaderBlock hdr) {k : Nat}
    (hk : k < hdr.length) : findRequestHeaderEndOffset (hdr.take k) = none := by
  have h4 : hdrfn.length = 4 := rfl
  have := h.four_le
  rw [findRequestHeaderEndOffset, memmem_take (show memmem hdrfn hdr = some (hdr.length - 4) from h)
    (by rw [h4]; omega)]
  rfl

def foldCase (b : UInt8) : UInt8 := if 65 ≤ b.toNat ∧ b.toNat ≤ 90 then b + 32 else b

def strncasecmpEq : Nat → Bytes → Bytes → Bool
  | 0, _, _ => true
  | n + 1, a :: as, b :: bs => foldCase a == foldCase b && (b == 0 || strncasecmpEq n as bs)
  | _ + 1, _, _ => false

theorem strncasecmpEq_of_prefix {v lit : Bytes} (h : v.map foldCase <+: lit.map foldCase) :
    strncasecmpEq v.length v (lit ++ [0]) = true := by
  induction v generalizing lit with
  | nil => rfl
  | cons a as ih =>
    obtain ⟨c, cs, rfl⟩ := List.exists_cons_of_ne_nil fun hl : lit = [] => by simp [hl] at h
    obtain ⟨hac, hp⟩ := List.cons_prefix_cons.1 h
    simp [strncasecmpEq, hac, ih hp]

/-- `charmap[(int)ch]` with a signed `char`: a byte of 128 or more is outside the table. -/
def charmapAt (b : UInt8) : Option UInt8 := if b.toNat < 128 then some (foldCase b) else none

def nocaseCompare : Bytes → Bytes → Option Bool
  | [], [] => some false
  | [], _ :: _ => some true
  | _ :: _, [] => some false
  | a :: as, b :: bs => do
    let x ← charmapAt a
    let y ← charmapAt b
    if x < y then pure true else if y < x then pure false else nocaseCompare as bs

theorem nocaseCompare_of_ascii {x y : Bytes} (hx : ∀ b ∈ x, b.toNat < 128)
    (hy : ∀ b ∈ y, b.toNat < 128) : ∃ u v, nocaseCompare x y = some u ∧
      nocaseCompare y x = some v ∧ (u = false ∧ v = false ↔ x.map foldCase = y.map foldCase) := by
  induction x generalizing y with
  | nil => cases y <;> simp [nocaseCompare]
  | cons a as ih =>
    cases y with
    | nil => simp [nocaseCompare]
    | cons b bs =>
      simp only [List.mem_cons, forall_eq_or_imp] at hx hy
      obtain ⟨u, v, hu, hv, huv⟩ := ih hx.2 hy.2
      simp only [nocaseCompare, charmapAt, if_pos hx.1, if_pos hy.1, Option.some_bind,
        List.map_cons, List.cons.injEq]
      by_cases hab : (foldCase a).toNat < (foldCase b).toNat
      · have hba : ¬ (foldCase b).toNat < (foldCase a).toNat := by omega
        have hne : foldCase a ≠ foldCase b := fun h => by rw [h] at hab; omega
        simp [show foldCase a < foldCase b from hab, show ¬ foldCase b < foldCase a from hba, hne]
      · by_cases hba : (foldCase b).toNat < (foldCase a).toNat
        · have hne : foldCase a ≠ foldCase b := fun h => by rw [h] at hba; omega
          simp [show ¬ foldCase a < foldCase b from hab, show foldCase b < foldCase a from hba, hne]
        · have he : foldCase a = foldCase b := UInt8.toNat.inj (by omega)
          simp [show ¬ foldCase a < foldCase b from hab, he, hu, hv, huv]

inductive ParserEvent where
  | url (b : Bytes)
  | field (b : Bytes)
  | value (b : Bytes)
  deriving DecidableEq, Repr

structure ParserRun where
  events : List ParserEvent
  contentLength : Int
  deriving DecidableEq, Repr

abbrev HttpParser := Bytes → ParserRun

inductive HeaderState where
  | kNone
  | kConnection
  deriving DecidableEq, Repr

structure HttpRequestHeader where
  keepAlive : Bool
  ready : Bool
  headerState : HeaderState
  url : Bytes
  contentLength : Int
  deriving DecidableEq, Repr

namespace HttpRequestHeader

def empty : HttpRequestHeader := ⟨false, false, .kNone, [], -1⟩

/-- `header_names.find(name)` in the map whose one key is `connection`. -/
def headerNamesFind (name : Bytes) : Option HeaderState := do
  if ← nocaseCompare (ascii "connection") name then pure .kNone
  else if ← nocaseCompare name (ascii "connection") then pure .kNone
  else pure .kConnection

theorem headerNamesFind_of_ascii {name : Bytes} (h : ∀ b ∈ name, b.toNat < 128) :
    headerNamesFind name =
      some (if name.map foldCase = ascii "connection" then .kConnection else .kNone) := by
  obtain ⟨u, v, hu, hv, huv⟩ := nocaseCompare_of_ascii (x := ascii "connection") (by decide) h
  have hc : (ascii "connection").map foldCase = ascii "connection" := by decide
  rw [hc] at huv
  unfold headerNamesFind
  rw [hu, hv]
  by_cases hn : name.map foldCase = ascii "connection"
  · obtain ⟨rfl, rfl⟩ := huv.2 hn.symm
    simp [hn]
  · have huv' : ¬ (u = false ∧ v = false) := fun h => hn (huv.1 h).symm
    cases u <;> cases v <;> simp_all

/-- `set_field`: the state `header_names.find` gives the name, `kNone` when not found. -/
def setField (h : HttpRequestHeader) (b : Bytes) : HttpRequestHeader :=
  { h with headerState := (headerNamesFind b).getD .kNone }

theorem ascii_of_map_foldCase {name lit : Bytes} (hl : ∀ c ∈ lit, c.toNat < 128)
    (hn : name.map foldCase = lit) : ∀ b ∈ name, b.toNat < 128 := by
  intro b hb
  have h := hl _ (hn ▸ List.mem_map_of_mem foldCase hb)
  unfold foldCase at h
  split_ifs at h with hu
  · omega
  · exact h

/-- `set_value`: on a `Connection` header, `strncasecmp` over the value's length. -/
def setValue (h : HttpRequestHeader) (b : Bytes) : HttpRequestHeader :=
  match h.headerState with
  | .kNone => h
  | .kConnection =>
    let keepAlive :=
      if strncasecmpEq b.length b (ascii "close" ++ [0]) then false
      else if strncasecmpEq b.length b (ascii "keep-alive" ++ [0]) then true
      else h.keepAlive
    { h with keepAlive := keepAlive, headerState := .kNone }

/-- Every `Connection` value that folds to a prefix of `close` or `keep-alive` matches it. -/
theorem connection_value_prefixes (h : HttpRequestHeader) {name : Bytes}
    (hn : name.map foldCase = ascii "connection") (v : Bytes) :
    (v.map foldCase <+: ascii "close" → ((h.setField name).setValue v).keepAlive = false) ∧
    (v ≠ [] → v.map foldCase <+: ascii "keep-alive" →
      ((h.setField name).setValue v).keepAlive = true) := by
  have hs : (h.setField name).headerState = .kConnection := by
    simp [setField, headerNamesFind_of_ascii (ascii_of_map_foldCase (by decide) hn), hn]
  have hk : ∀ lit : Bytes, lit.map foldCase = lit → v.map foldCase <+: lit →
      strncasecmpEq v.length v (lit ++ [0]) = true := fun lit hl hp =>
    strncasecmpEq_of_prefix (hl.symm ▸ hp)
  refine ⟨fun hc => by simp [setValue, hs, hk _ (by decide) hc], fun hne hka => ?_⟩
  obtain ⟨a, as, rfl⟩ := List.exists_cons_of_ne_nil hne
  have ha : foldCase a = 107 := (List.cons_prefix_cons.1 hka).1
  have hc : ascii "close" ++ [0] = 99 :: (ascii "lose" ++ [0]) := by decide
  have hclose : strncasecmpEq (a :: as).length (a :: as) (ascii "close" ++ [0]) = false := by
    rw [hc, List.length_cons, strncasecmpEq, ha, show (107 == foldCase 99) = false by decide,
      Bool.false_and]
  simp only [setValue, hs, hclose, hk _ (by decide) hka, Bool.false_eq_true, if_false, if_true]

def setUrl (h : HttpRequestHeader) (b : Bytes) : HttpRequestHeader := { h with url := b }

def callback (h : HttpRequestHeader) : ParserEvent → HttpRequestHeader
  | .url b => if 0 < b.length then h.setUrl b else h
  | .field b => h.setField b
  | .value b => h.setValue b

def tryParse (parser : HttpParser) (h : HttpRequestHeader) (data : Bytes) :
    Option Nat × HttpRequestHeader :=
  match findRequestHeaderEndOffset data with
  | none => (none, h)
  | some e =>
    let run := parser (data.take e)
    (some e, { run.events.foldl callback h with ready := true, contentLength := run.contentLength })

def getContentLength (h : HttpRequestHeader) : Nat := (max h.contentLength 0).toNat

def ofRun (h : HttpRequestHeader) (run : ParserRun) : HttpRequestHeader :=
  { run.events.foldl callback h with ready := true, contentLength := run.contentLength }

section Block
variable {hdr : Bytes} (hb : IsHeaderBlock hdr) (parser : HttpParser) (h : HttpRequestHeader)
include hb

theorem tryParse_append (more : Bytes) :
    h.tryParse parser (hdr ++ more) = (some hdr.length, h.ofRun (parser hdr)) := by
  simp [tryParse, findRequestHeaderEndOffset_append hb, ofRun]

theorem tryParse_take {k : Nat} (hk : k < hdr.length) :
    h.tryParse parser (hdr.take k) = (none, h) := by
  simp [tryParse, findRequestHeaderEndOffset_take hb hk]

end Block

theorem connection_value_k :
    (ascii "Connection").map foldCase = ascii "connection" ∧
    (empty.tryParse
      (fun _ => ⟨[.url (ascii "/"), .field (ascii "Connection"), .value (ascii "k")], -1⟩)
      (ascii "GET / HTTP/1.1\r\nConnection: k\r\n\r\n")).2.keepAlive = true ∧
    (((ascii "k").map foldCase <+: ascii "close" →
      ((empty.setField (ascii "Connection")).setValue (ascii "k")).keepAlive = false) ∧
    (ascii "k" ≠ [] → (ascii "k").map foldCase <+: ascii "keep-alive" →
      ((empty.setField (ascii "Connection")).setValue (ascii "k")).keepAlive = true)) :=
  ⟨by decide, by decide, connection_value_prefixes empty (by decide) (ascii "k")⟩

end HttpRequestHeader

/-- `url_prefix(pref, url)`: the three-iterator `std::mismatch` of the prefix against the URL. -/
def urlPrefix (pref url : Bytes) : Option Bool :=
  if pref.length ≤ url.length then some (pref.isPrefixOf url)
  else if pref.take url.length = url then none else some false

def vscriptUrl : Bytes := ascii "/vscript/"
def sinkholeUrl : Bytes := ascii "/sinkhole/"

def mismatch : Bytes → Bytes → Option Bytes
  | [], _ => some []
  | _ :: _, [] => none
  | p :: ps, u :: us => if p = u then mismatch ps us else some (p :: ps)

theorem urlPrefix_eq_mismatch (pref url : Bytes) :
    urlPrefix pref url = (mismatch pref url).map List.isEmpty := by
  induction pref generalizing url with
  | nil => simp [urlPrefix, mismatch]
  | cons p ps ih =>
    cases url with
    | nil => simp [urlPrefix, mismatch]
    | cons u us =>
      by_cases hpu : p = u
      · subst hpu
        rw [mismatch, if_pos rfl, ← ih]
        simp [urlPrefix, List.isPrefixOf]
      · rw [mismatch, if_neg hpu]
        simp [urlPrefix, List.isPrefixOf, hpu]

theorem urlPrefix_cases (pref url : Bytes) :
    (urlPrefix pref url = none ↔ url.length < pref.length ∧ url <+: pref) ∧
    ∀ b, urlPrefix pref url = some b → (b = true ↔ pref <+: url) := by
  unfold urlPrefix
  split_ifs with hl ht
  · exact ⟨iff_of_false (by simp) fun h => absurd h.1 (by omega),
      fun b hb => by cases hb; exact List.isPrefixOf_iff_prefix⟩
  · exact ⟨iff_of_true rfl ⟨by omega, List.prefix_iff_eq_take.2 ht.symm⟩, fun b hb => by cases hb⟩
  · exact ⟨iff_of_false (by simp) fun h => ht (List.prefix_iff_eq_take.1 h.2).symm,
      fun b hb => by cases hb; exact iff_of_false (by simp) fun h => hl h.length_le⟩

/-- `url_prefix` reads `url` at `url.size()` exactly when it is a proper prefix of `pref`. -/
theorem url_prefix_reads_past_end (pref url : Bytes) :
    (mismatch pref url = none ↔ url.length < pref.length ∧ url <+: pref) ∧
    ∀ b, urlPrefix pref url = some b → (b = true ↔ pref <+: url) := by
  rw [← Option.map_eq_none', ← urlPrefix_eq_mismatch]
  exact urlPrefix_cases pref url

theorem url_prefix_reads_past_root :
    mismatch vscriptUrl (ascii "/") = none ∧
    ((mismatch vscriptUrl (ascii "/") = none ↔
      (ascii "/").length < vscriptUrl.length ∧ ascii "/" <+: vscriptUrl) ∧
    ∀ b, urlPrefix vscriptUrl (ascii "/") = some b → (b = true ↔ vscriptUrl <+: ascii "/")) :=
  ⟨rfl, url_prefix_reads_past_end vscriptUrl (ascii "/")⟩

end LServer
