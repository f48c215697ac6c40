import Pkm.Kacs.Model.Ace
/-!
# Access-control lists

An eight-byte header (revision, size, entry count and two reserved fields) and
then exactly the announced number of entries, with nothing after them. An `Acl`
carries its entries with the fact that they are the bytes behind the header, so
iterating over a parsed list never meets a malformed entry.
-/

namespace Pkm.Kacs

open Bytes List Outcome

namespace Acl

def headerSize : ℕ := 8

/-- Reads up to `count` entries, stopping early at the end of the buffer, with what is left. -/
def parseEntries : ℕ → Bytes → KacsResult (List Ace × Bytes)
  | 0, bytes => .ok ([], bytes)
  | count + 1, bytes =>
    if bytes.isEmpty then .ok ([], bytes)
    else do
      let (ace, consumed) ← Ace.parsePrefix bytes
      let (aces, rest) ← parseEntries count (bytes.drop consumed)
      .ok (ace :: aces, rest)

/-- The bytes of a sequence of entries. -/
def entryBytes (aces : List Ace) : Bytes := (aces.map Ace.bytes).flatten

@[simp]
theorem entryBytes_cons (a : Ace) (aces : List Ace) :
    entryBytes (a :: aces) = a.bytes ++ entryBytes aces := rfl

/-- The entries read are the front of the buffer. -/
theorem parseEntries_eq {count : ℕ} {bytes rest : Bytes} {aces : List Ace}
    (h : parseEntries count bytes = .ok (aces, rest)) :
    bytes = entryBytes aces ++ rest ∧ aces.length ≤ count := by
  induction count generalizing bytes aces with
  | zero =>
    cases h
    exact ⟨rfl, Nat.le_refl _⟩
  | succ n ih =>
    unfold parseEntries at h
    split_ifs at h
    · cases h
      exact ⟨rfl, Nat.zero_le _⟩
    · obtain ⟨⟨a, consumed⟩, ha, h⟩ := of_bind h
      obtain ⟨⟨as, rest'⟩, has, h⟩ := of_bind h
      cases h
      obtain ⟨tail, rfl, rfl⟩ := Ace.parsePrefix_eq_ok.mp ha
      simp only [drop_left] at has
      obtain ⟨rfl, hle⟩ := ih has
      exact ⟨by simp, Nat.succ_le_succ hle⟩

/-- Entries laid end to end are read back, and reading stops behind them. -/
theorem parseEntries_entryBytes (aces : List Ace) (rest : Bytes) :
    parseEntries aces.length (entryBytes aces ++ rest) = .ok (aces, rest) := by
  induction aces with
  | nil => rfl
  | cons a as ih =>
    have hne : (a.bytes ++ entryBytes as ++ rest).isEmpty = false := by
      have := a.four_le_length
      cases hb : a.bytes with
      | nil => simp [hb] at this
      | cons b bs => rfl
    have hp : Ace.parsePrefix (a.bytes ++ entryBytes as ++ rest) = .ok (a, a.bytes.length) :=
      Ace.parsePrefix_eq_ok.mpr ⟨entryBytes as ++ rest, append_assoc _ _ _, rfl⟩
    have hd : (a.bytes ++ entryBytes as ++ rest).drop a.bytes.length = entryBytes as ++ rest := by
      rw [append_assoc, drop_left]
    simp only [entryBytes_cons, length_cons, parseEntries, hne, hp, hd, ih, ok_bind,
      Bool.false_eq_true, if_false]

/-- The fields of a list are those its bytes parse to. -/
def WellFormed (bytes : Bytes) (revision sbz1 : Byte) (size aceCount sbz2 : BitVec 16)
    (aces : List Ace) : Prop :=
  bytes.length = size.toNat ∧ headerSize ≤ size.toNat ∧ byteAt bytes 0 = revision ∧
    byteAt bytes 1 = sbz1 ∧ u16At bytes 2 = size ∧ u16At bytes 4 = aceCount ∧
    u16At bytes 6 = sbz2 ∧ aces.length = aceCount.toNat ∧ bytes.drop headerSize = entryBytes aces

end Acl

/-- A parsed list. -/
structure Acl where
  bytes : Bytes
  revision : Byte
  sbz1 : Byte
  size : BitVec 16
  aceCount : BitVec 16
  sbz2 : BitVec 16
  /-- The entries, in order. -/
  entries : List Ace
  wf : Acl.WellFormed bytes revision sbz1 size aceCount sbz2 entries
  deriving DecidableEq

namespace Acl

/-- Entry sequences of the same length and the same bytes are the same. -/
theorem entries_eq_of_bytes {as bs : List Ace} (hlen : as.length = bs.length)
    (h : entryBytes as = entryBytes bs) : as = bs := by
  have ha := parseEntries_entryBytes as []
  have hb := parseEntries_entryBytes bs []
  rw [hlen, h, hb] at ha
  simp only [Except.ok.injEq, Prod.mk.injEq, and_true] at ha
  exact ha.symm

variable {a : Acl} {bytes : Bytes}

/-- A list is determined by its bytes. -/
@[ext]
theorem ext {b : Acl} (h : a.bytes = b.bytes) : a = b := by
  revert h
  obtain ⟨bytes, r, s₁, n, c, s₂, es, -, -, hr, hs₁, hn, hc, hs₂, hl, he⟩ := a
  obtain ⟨bytes', r', s₁', n', c', s₂', es', -, -, hr', hs₁', hn', hc', hs₂', hl', he'⟩ := b
  rintro rfl
  subst hr hr' hs₁ hs₁' hn hn' hc hc' hs₂ hs₂'
  obtain rfl : es = es' := entries_eq_of_bytes (hl.trans hl'.symm) (he.symm.trans he')
  rfl

/-- Takes a list off the front of a buffer, with the number of bytes it uses. -/
def parsePrefix (bytes : Bytes) : KacsResult (Acl × ℕ) :=
  if bytes.length < headerSize then .error (.truncated "acl")
  else if hsize : (u16At bytes 2).toNat < headerSize then .error (.invalidAclSize (u16At bytes 2))
  else if hlen : bytes.length < (u16At bytes 2).toNat then
    .error (.aclSizeExceedsBuffer (u16At bytes 2) bytes.length)
  else
    match hentries : parseEntries (u16At bytes 4).toNat
        ((bytes.take (u16At bytes 2).toNat).drop headerSize) with
    | .error e => .error e
    | .ok (aces, rest) =>
      if hcount : aces.length ≠ (u16At bytes 4).toNat then
        .error (.aclAceCountMismatch (u16At bytes 4) (BitVec.ofNat 16 aces.length))
      else if hrest : rest ≠ [] then .error (.aclTrailingBytes rest.length)
      else
        .ok ({ bytes := bytes.take (u16At bytes 2).toNat
               revision := byteAt bytes 0
               sbz1 := byteAt bytes 1
               size := u16At bytes 2
               aceCount := u16At bytes 4
               sbz2 := u16At bytes 6
               entries := aces
               wf := by
                 have h8 : headerSize = 8 := rfl
                 have hb := (parseEntries_eq hentries).1
                 rw [not_not.mp hrest, append_nil] at hb
                 exact ⟨by rw [length_take]; omega, by omega, byteAt_take (by omega),
                   byteAt_take (by omega), u16At_take (by omega), u16At_take (by omega),
                   u16At_take (by omega), not_not.mp hcount, hb⟩ },
          (u16At bytes 2).toNat)

/-- Parses a list that occupies the whole slice. -/
def parse (bytes : Bytes) : KacsResult Acl := do
  let (acl, consumed) ← parsePrefix bytes
  if consumed ≠ bytes.length then .error (.aclSizeExceedsBuffer acl.size bytes.length)
  else .ok acl

/-! ## The parsers and the bytes of a list -/

theorem length_bytes (a : Acl) : a.bytes.length = a.size.toNat := a.wf.1

theorem eight_le_length (a : Acl) : 8 ≤ a.bytes.length := a.wf.1 ▸ a.wf.2.1

theorem length_le (a : Acl) : a.bytes.length ≤ 65535 := by
  rw [a.length_bytes]
  omega

/-- Reading the entries again from a list's bytes gives its entries. -/
theorem parseEntries_bytes (a : Acl) :
    parseEntries a.aceCount.toNat (a.bytes.drop headerSize) = .ok (a.entries, []) := by
  obtain ⟨-, -, -, -, -, -, -, hl, he⟩ := a.wf
  rw [he, ← hl, ← append_nil (entryBytes a.entries)]
  exact parseEntries_entryBytes a.entries []

/-- A list taken off the front of a buffer is the buffer's prefix of its length. -/
theorem parsePrefix_eq_ok {n : ℕ} :
    parsePrefix bytes = .ok (a, n) ↔ ∃ rest, bytes = a.bytes ++ rest ∧ n = a.bytes.length := by
  constructor
  · intro h
    unfold parsePrefix at h
    split_ifs at h with h₀ h₁ h₂
    split at h
    · cases h
    · split_ifs at h
      obtain ⟨rfl, rfl⟩ := h
      refine ⟨bytes.drop _, (take_append_drop _ _).symm, ?_⟩
      simp only [length_take]
      omega
  · rintro ⟨rest, rfl, rfl⟩
    obtain ⟨hlen, h8, hr, hs₁, hn, hc, hs₂, hl, he⟩ := a.wf
    have h8' : headerSize = 8 := rfl
    have e₂ : u16At (a.bytes ++ rest) 2 = a.size := by rw [u16At_append_left (by omega), hn]
    have e₄ : u16At (a.bytes ++ rest) 4 = a.aceCount := by rw [u16At_append_left (by omega), hc]
    have et : (a.bytes ++ rest).take a.size.toNat = a.bytes := by rw [← hlen, take_left]
    have hp := a.parseEntries_bytes
    unfold parsePrefix
    rw [if_neg (by simp only [length_append]; omega), dif_neg (by rw [e₂]; omega),
      dif_neg (by rw [e₂]; simp only [length_append]; omega)]
    split
    · rename_i e hpe
      rw [e₂, e₄, et, hp] at hpe
      cases hpe
    · rename_i aces rest' hpe
      rw [e₂, e₄, et, hp] at hpe
      cases hpe
      rw [dif_neg (by rw [e₄, hl]; exact not_not.mpr rfl), dif_neg (not_not.mpr rfl)]
      simp only [Except.ok.injEq, Prod.mk.injEq]
      refine ⟨Acl.ext ?_, by rw [e₂, hlen]⟩
      simp only [e₂, et]

/-- The parser accepts exactly the bytes of a list, as that list. -/
theorem parse_eq_ok : parse bytes = .ok a ↔ a.bytes = bytes := by
  unfold parse
  exact Ace.whole_eq_ok (fun acl : Acl => .aclSizeExceedsBuffer acl.size bytes.length)
    parsePrefix_eq_ok

end Acl

end Pkm.Kacs
