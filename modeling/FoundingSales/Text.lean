import FoundingSales.Library.Texts

/-!
Strings and instants as the program has them. A string is a list of UTF-16 code units,
which is what `length`, `slice` and `lastIndexOf` count. Unicode tables and the digest are
not part of the repository; a `Platform` supplies them.
-/

namespace FoundingSales

abbrev JsString := List UInt16

instance : LawfulBEq JsString := inferInstance

abbrev Uuid := JsString

/-- Milliseconds since the epoch. -/
abbrev Instant := Int

/-- Days since the epoch. -/
abbrev BusinessDate := Int

def codeUnits (c : Char) : JsString :=
  if c.toNat < 0x10000 then [c.toNat.toUInt16]
  else
    let v := c.toNat - 0x10000
    [(0xD800 + v / 0x400).toUInt16, (0xDC00 + v % 0x400).toUInt16]

/-- A string literal. -/
def js (s : String) : JsString := s.toList.flatMap codeUnits

def newline : UInt16 := 10
def atSign : UInt16 := 64

/-- A fact of the ASCII characters, checked one by one. -/
theorem ascii_cases {p : UInt16 → Bool} (h : ∀ n < 128, p (UInt16.ofNat n) = true) {c : UInt16}
    (hc : c.toNat < 128) : p c = true := by
  have hp := h c.toNat hc
  rwa [UInt16.ofNat_toNat] at hp

/-- What `\s` matches and `trim` strips. -/
def isSpace (c : UInt16) : Bool :=
  c ∈ [9, 10, 11, 12, 13, 0x20, 0xA0, 0x1680, 0x2028, 0x2029, 0x202F, 0x205F, 0x3000, 0xFEFF]
    || (0x2000 ≤ c && c ≤ 0x200A)

/-- `text.trim()` -/
def trim (text : JsString) : JsString := Texts.strip isSpace text

/-- `text.replace(/\s+$/u, '')` -/
def trimEnd (text : JsString) : JsString := text.rdropWhile isSpace

/-- `text.includes(part)` -/
def includes (text part : JsString) : Bool := part <:+: text

/-- `text.endsWith(part)` -/
def endsWith (text part : JsString) : Bool := part <:+ text

/-- `text.slice(text.lastIndexOf('@') + 1)` -/
def afterLastAt (text : JsString) : JsString := text.rtakeWhile (· != atSign)

/-- `left <= right`, code unit by code unit. -/
def textLe : JsString → JsString → Bool
  | [], _ => true
  | _ :: _, [] => false
  | a :: as, b :: bs => a < b || (a == b && textLe as bs)

/-- Unicode and cryptography as the runtime and the database provide them. -/
structure Platform where
  /-- `createHash('sha256').update(text, 'utf8').digest('hex')` -/
  sha256 : JsString → JsString
  /-- `text.toLowerCase()` -/
  toLowerCase : JsString → JsString
  /-- `text.normalize('NFKC')` -/
  normalizeNFKC : JsString → JsString
  /-- `[[:space:]]` in the database's locale -/
  isSqlSpace : UInt16 → Bool

/-- What the runtime does on ASCII text, with the digests of the texts at hand. -/
def asciiPlatform (digests : List (JsString × JsString)) : Platform where
  sha256 text := ((digests.find? fun digest => digest.1 = text).map Prod.snd).getD []
  toLowerCase text := text.map fun c => if 65 ≤ c && c ≤ 90 then c + 32 else c
  normalizeNFKC text := text
  isSqlSpace c := c ∈ [9, 10, 11, 12, 13, 32]

@[simp] theorem trim_trim (text : JsString) : trim (trim text) = trim text := Texts.strip_strip

theorem trim_eq_nil_iff {text : JsString} : trim text = [] ↔ trimEnd text = [] :=
  Texts.rdropWhile_eq_nil_iff_strip.symm

theorem not_mem_trim {c : UInt16} {text : JsString} (h : c ∉ text) : c ∉ trim text :=
  fun hc => h (Texts.mem_of_mem_strip hc)

@[simp] theorem trimEnd_trimEnd (text : JsString) : trimEnd (trimEnd text) = trimEnd text :=
  List.rdropWhile_idempotent _ _

private theorem code_trichotomy (a b : UInt16) : a < b ∨ b < a ∨ a = b := by
  simp only [UInt16.lt_iff_toNat_lt, ← UInt16.toNat_inj]
  omega

theorem textLe_total (left right : JsString) : (textLe left right || textLe right left) = true := by
  induction left generalizing right with
  | nil => rfl
  | cons a as ih =>
    cases right with
    | nil => rfl
    | cons b bs =>
      simp only [textLe, Bool.or_eq_true, Bool.and_eq_true, decide_eq_true_eq, beq_iff_eq]
      rcases code_trichotomy a b with hab | hab | rfl
      · exact .inl (.inl hab)
      · exact .inr (.inl hab)
      · have := ih bs
        rw [Bool.or_eq_true] at this
        rcases this with h | h
        · exact .inl (.inr ⟨rfl, h⟩)
        · exact .inr (.inr ⟨rfl, h⟩)

theorem textLe_trans {a b c : JsString} (hab : textLe a b = true) (hbc : textLe b c = true) :
    textLe a c = true := by
  induction a generalizing b c with
  | nil => rfl
  | cons x xs ih =>
    cases b with
    | nil => cases hab
    | cons y ys =>
      cases c with
      | nil => cases hbc
      | cons z zs =>
        simp only [textLe, Bool.or_eq_true, Bool.and_eq_true, decide_eq_true_eq,
          beq_iff_eq] at hab hbc ⊢
        rcases hab with hxy | ⟨rfl, hxs⟩
        · rcases hbc with hyz | ⟨rfl, -⟩
          · refine .inl (UInt16.lt_iff_toNat_lt.2 ?_)
            rw [UInt16.lt_iff_toNat_lt] at hxy hyz
            omega
          · exact .inl hxy
        · rcases hbc with hyz | ⟨rfl, hys⟩
          · exact .inl hyz
          · exact .inr ⟨rfl, ih hxs hys⟩

theorem textLe_antisymm {a b : JsString} (hab : textLe a b = true) (hba : textLe b a = true) :
    a = b := by
  induction a generalizing b with
  | nil =>
    cases b with
    | nil => rfl
    | cons y ys => cases hba
  | cons x xs ih =>
    cases b with
    | nil => cases hab
    | cons y ys =>
      simp only [textLe, Bool.or_eq_true, Bool.and_eq_true, decide_eq_true_eq,
        beq_iff_eq] at hab hba
      rcases hab with hxy | ⟨rfl, hxs⟩
      · rcases hba with hyx | ⟨rfl, -⟩
        · rw [UInt16.lt_iff_toNat_lt] at hxy hyx
          omega
        · simp at hxy
      · rcases hba with hxx | ⟨-, hys⟩
        · simp at hxx
        · rw [ih hxs hys]

/-- `left < right`, of strings -/
def textLt (left right : JsString) : Bool := !textLe right left

theorem textLt_irrefl (text : JsString) : textLt text text = false := by
  have htotal := textLe_total text text
  rw [Bool.or_self] at htotal
  unfold textLt
  rw [htotal]
  rfl

theorem textLt_asymm {left right : JsString} (h : textLt left right = true) :
    textLt right left = false := by
  have htotal := textLe_total left right
  unfold textLt at h ⊢
  rw [Bool.not_eq_true'] at h
  rw [h, Bool.or_false] at htotal
  rw [htotal]
  rfl

theorem textLt_cons (a : UInt16) (left right : JsString) :
    textLt (a :: left) (a :: right) = textLt left right := by
  have hirrefl : ¬ a < a := by
    rw [UInt16.lt_iff_toNat_lt]
    omega
  simp [textLt, textLe, hirrefl]

theorem textLt_append_left (text left right : JsString) :
    textLt (text ++ left) (text ++ right) = textLt left right := by
  induction text with
  | nil => rfl
  | cons a text ih => rw [List.cons_append, List.cons_append, textLt_cons, ih]

/-- Texts of one length that differ decide. -/
theorem textLt_append {left right : JsString} (hlength : left.length = right.length)
    (h : textLt left right = true) (left' right' : JsString) :
    textLt (left ++ left') (right ++ right') = true := by
  induction left generalizing right with
  | nil =>
    cases right with
    | nil => cases h
    | cons b right => cases hlength
  | cons a left ih =>
    cases right with
    | nil => cases hlength
    | cons b right =>
      have hlength' : left.length = right.length := by simpa using hlength
      rw [List.cons_append, List.cons_append]
      unfold textLt textLe at h ⊢
      simp only [Bool.not_eq_true', Bool.or_eq_false_iff, Bool.and_eq_false_iff,
        decide_eq_false_iff_not, beq_eq_false_iff_ne] at h ⊢
      refine ⟨h.1, h.2.imp id fun hle => ?_⟩
      have hlt := ih hlength' (by unfold textLt; rw [hle]; rfl)
      unfold textLt at hlt
      rwa [Bool.not_eq_true'] at hlt

end FoundingSales
