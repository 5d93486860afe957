import FoundingSales.Suppression.Journal

/-!
Canonical handles: what a stored key looks like, and that it has one spelling.

Proved here:

* `emailPattern_plain`: an address that passes the pattern is lower-case ASCII without white space;
* `canonicalizeEmail_of_valid`, `canonicalizePhone_of_digits`: a canonical value is its own;
* `canonicalizeHandle_eq`: a handle is canonicalised by one of the two;
* `canonicalizeRoutes_sorted`, `mem_canonicalizeRoutes`, `canonicalizeRoutes_congr`: routes come
  out as the sorted set of their handles;
* `canonical_handles`: all of it, and that a canonical value can be stored.
-/

namespace FoundingSales.Rules

open Suppression

/-- U+212A, which is no ASCII character but has one as its lower case. -/
def kelvinSign : UInt16 := 0x212A

def isBasic (c : UInt16) : Bool := c < 128 || c = kelvinSign

/-- A basic character, normalised. -/
def basicNFKC (c : UInt16) : UInt16 := if c = kelvinSign then 75 else c

/-- A basic character, lower-cased. -/
def basicLower (c : UInt16) : UInt16 :=
  if 65 ≤ c ∧ c ≤ 90 then c + 32 else if c = kelvinSign then 107 else c

/-- What the Unicode tables say of normalisation and of the lower case of basic characters. -/
structure StandardUnicode (P : Platform) : Prop where
  /-- Normal forms are closed under parts. -/
  part : ∀ text part, part <:+: P.normalizeNFKC text → P.normalizeNFKC part = part
  basic : ∀ text, text.all isBasic = true → P.normalizeNFKC text = text.map basicNFKC
  lower : ∀ text, text.all isBasic = true → P.toLowerCase text = text.map basicLower
  /-- Only basic characters have a lower case in ASCII. -/
  ofLower : ∀ text, (∀ c ∈ P.toLowerCase text, c < 128) → text.all isBasic = true

/-- `suppression_events_canonical_key_present` -/
def canonicalKeyPresent (P : Platform) (canonicalKey : JsString) : Bool :=
  Texts.strip (· = 32) canonicalKey ≠ [] && P.toLowerCase canonicalKey = canonicalKey &&
    canonicalKey.length ≤ 320

def CanonicalChannel.suppression : CanonicalChannel → SuppressionChannel
  | .phone => .phone
  | .email => .email

/-! ## Plain text -/

/-- ASCII, no white space and no capital. -/
def isPlain (c : UInt16) : Bool := c < 128 && !isSpace c && !(65 ≤ c && c ≤ 90)

section Plain

variable {P : Platform} {text : JsString} {c : UInt16}

private theorem plain_of_imp {p : UInt16 → Bool} (hascii : p c = true → c.toNat < 128)
    (h : ∀ n < 128, (!p (UInt16.ofNat n) || isPlain (UInt16.ofNat n)) = true) (hc : p c = true) :
    isPlain c = true := by
  have hplain : (!p c || isPlain c) = true := ascii_cases (p := fun c => !p c || isPlain c) h (hascii hc)
  rwa [hc, Bool.not_true, Bool.false_or] at hplain

theorem isDigit_plain (h : isDigit c = true) : isPlain c = true := by
  refine plain_of_imp (fun hc => ?_) (by decide +kernel) h
  unfold isDigit at hc
  simp only [Bool.and_eq_true, decide_eq_true_eq, UInt16.le_iff_toNat_le] at hc
  have hhigh : c.toNat ≤ 57 := hc.2
  omega

theorem isLowerAlnum_plain (h : isLowerAlnum c = true) : isPlain c = true := by
  refine plain_of_imp (fun hc => ?_) (by decide +kernel) h
  unfold isLowerAlnum isDigit at hc
  simp only [Bool.or_eq_true, Bool.and_eq_true, decide_eq_true_eq, UInt16.le_iff_toNat_le] at hc
  have hlower : (122 : UInt16).toNat = 122 := rfl
  have hdigit : (57 : UInt16).toNat = 57 := rfl
  omega

theorem isLocalCharacter_plain (h : isLocalCharacter c = true) : isPlain c = true := by
  unfold isLocalCharacter at h
  rw [Bool.or_eq_true, decide_eq_true_eq] at h
  rcases h with h | h
  · exact isLowerAlnum_plain h
  · have hall : (js ".!#$%&'*+/=?^_`\x7b|\x7d~-").all isPlain = true := by decide +kernel
    exact List.all_eq_true.1 hall c h

theorem plain_basic (h : text.all isPlain = true) : text.all isBasic = true := by
  rw [List.all_eq_true] at h ⊢
  intro c hc
  have hplain := h c hc
  unfold isPlain at hplain
  unfold isBasic
  simp only [Bool.and_eq_true, decide_eq_true_eq] at hplain
  simp [hplain.1.1]

theorem plain_lower (hP : StandardUnicode P) (h : text.all isPlain = true) :
    P.toLowerCase text = text := by
  rw [hP.lower text (plain_basic h)]
  refine (List.map_congr_left fun c hc => ?_).trans (List.map_id text)
  have hplain := List.all_eq_true.1 h c hc
  unfold isPlain at hplain
  simp only [Bool.and_eq_true, Bool.not_eq_true', Bool.and_eq_false_iff, decide_eq_true_eq,
    decide_eq_false_iff_not] at hplain
  have hkelvin : c ≠ kelvinSign := fun heq => by
    rw [heq] at hplain
    exact absurd hplain.1.1 (by decide)
  unfold basicLower
  rw [if_neg fun hupper => hplain.2.elim (fun hnot => hnot hupper.1) fun hnot => hnot hupper.2,
    if_neg hkelvin]
  rfl

theorem plain_nfkc (hP : StandardUnicode P) (h : text.all isPlain = true) :
    P.normalizeNFKC text = text := by
  rw [hP.basic text (plain_basic h)]
  refine (List.map_congr_left fun c hc => ?_).trans (List.map_id text)
  have hplain := List.all_eq_true.1 h c hc
  have hkelvin : c ≠ kelvinSign := fun heq => by
    rw [heq] at hplain
    exact absurd hplain (by decide)
  exact if_neg hkelvin

theorem plain_noSpace (h : text.all isPlain = true) (hc : c ∈ text) : isSpace c = false := by
  have hplain := List.all_eq_true.1 h c hc
  unfold isPlain at hplain
  simp only [Bool.and_eq_true, Bool.not_eq_true'] at hplain
  exact hplain.1.2

theorem basicNFKC_basic (h : text.all isBasic = true) :
    (text.map basicNFKC).all isBasic = true := by
  rw [List.all_eq_true] at h ⊢
  intro c hc
  obtain ⟨c', hc', rfl⟩ := List.mem_map.1 hc
  unfold basicNFKC
  split
  · rfl
  · exact h c' hc'

theorem basicLower_basicNFKC (c : UInt16) : basicLower (basicNFKC c) = basicLower c := by
  by_cases hkelvin : c = kelvinSign
  · rw [hkelvin]
    decide
  · have hsame : basicNFKC c = c := if_neg hkelvin
    rw [hsame]

theorem basicLower_of_space (h : isSpace c = true) : basicLower c = c := by
  have hkelvin : c ≠ kelvinSign := fun heq => by
    rw [heq] at h
    exact absurd h (by decide)
  have hupper : ¬ (65 ≤ c ∧ c ≤ 90) := fun hupper => by
    have hnone : (!(65 ≤ c && c ≤ 90) || !isSpace c) = true :=
      ascii_cases (p := fun c => !(65 ≤ c && c ≤ 90) || !isSpace c) (by decide +kernel) (by
        have hhigh : c.toNat ≤ 90 := UInt16.le_iff_toNat_le.1 hupper.2
        omega)
    simp [h, hupper] at hnone
  unfold basicLower
  rw [if_neg hupper, if_neg hkelvin]

/-- Plain text is read as it is. -/
theorem plain_read (hP : StandardUnicode P) (h : text.all isPlain = true) :
    trim (P.normalizeNFKC text) = text := by
  rw [plain_nfkc hP h]
  exact Texts.strip_of_forall fun c hc => plain_noSpace h hc

end Plain

/-! ## Addresses -/

section Email

variable {P : Platform} {text : JsString}

/-- An address of the pattern: what is before the at-sign, and what is after it. -/
theorem emailPattern_parts (h : emailPattern text = true) : ∃ localPart domain,
    text = localPart ++ atSign :: domain ∧ localPart ≠ [] ∧ localPart.all isLocalCharacter = true ∧
      atSign ∉ localPart ∧ 2 ≤ (domain.splitOn 46).length ∧
      (domain.splitOn 46).all domainLabel = true := by
  unfold emailPattern at h
  simp only [Bool.and_eq_true, Bool.not_eq_true', decide_eq_true_eq] at h
  obtain ⟨⟨⟨⟨hne, hlocal⟩, hlength⟩, hlabels⟩, hall⟩ := h
  have hsplit := List.takeWhile_append_dropWhile (p := (· != atSign)) (l := text)
  have hat : atSign ∉ text.takeWhile (· != atSign) := fun hmem => by
    simpa using List.mem_takeWhile_imp hmem
  cases hdrop : text.dropWhile (· != atSign) with
  | nil =>
    rw [hdrop, List.append_nil] at hsplit
    rw [hsplit] at hlength
    exact absurd hlength (Nat.lt_irrefl _)
  | cons a domain =>
    have ha : a = atSign := by
      have hhead := List.head_dropWhile_not (p := (· != atSign)) (l := text)
        (by rw [hdrop]; exact List.cons_ne_nil _ _)
      simpa [hdrop] using hhead
    rw [hdrop, ha] at hsplit
    generalize text.takeWhile (· != atSign) = localPart at *
    subst hsplit
    have hdomain : (localPart ++ atSign :: domain).drop (localPart.length + 1) = domain := by
      rw [← List.drop_drop, List.drop_left]
      rfl
    rw [hdomain] at hlabels hall
    refine ⟨localPart, domain, rfl, ?_, hlocal, hat, hlabels, hall⟩
    rintro rfl
    cases hne

theorem domainLabel_plain {label : JsString} (h : domainLabel label = true) :
    label.all isPlain = true := by
  unfold domainLabel at h
  simp only [Bool.and_eq_true] at h
  rw [List.all_eq_true]
  intro c hc
  have hmem := List.all_eq_true.1 h.2 c hc
  rw [Bool.or_eq_true, decide_eq_true_eq] at hmem
  rcases hmem with halnum | rfl
  · exact isLowerAlnum_plain halnum
  · decide

/-- An address of the pattern is plain text. -/
theorem emailPattern_plain (h : emailPattern text = true) : text.all isPlain = true := by
  obtain ⟨localPart, domain, rfl, -, hlocal, -, -, hlabels⟩ := emailPattern_parts h
  rw [List.all_append, Bool.and_eq_true, List.all_cons, Bool.and_eq_true]
  refine ⟨List.all_eq_true.2 fun c hc => ?_, by decide, List.all_eq_true.2 fun c hc => ?_⟩
  · exact isLocalCharacter_plain (List.all_eq_true.1 hlocal c hc)
  · rcases Texts.mem_splitOn 46 hc with rfl | ⟨label, hlabel, hmem⟩
    · decide
    · exact List.all_eq_true.1 (domainLabel_plain (List.all_eq_true.1 hlabels label hlabel)) c hmem

theorem emailPattern_at (h : emailPattern text = true) : atSign ∈ text := by
  obtain ⟨localPart, domain, rfl, -⟩ := emailPattern_parts h
  simp

/-- What an address has to be, as it is read. -/
def validEmail (normalized : JsString) : Bool :=
  let localPart := beforeAt normalized
  normalized.length ≤ 254 && emailPattern normalized && !includes normalized (js "..") &&
    localPart.head? != some 46 && localPart.getLast? != some 46

theorem validEmail_pattern (h : validEmail text = true) : emailPattern text = true := by
  unfold validEmail at h
  simp only [Bool.and_eq_true] at h
  exact h.1.1.1.2

theorem canonicalizeEmail_eq (P : Platform) (value : JsString) : canonicalizeEmail P value =
    if P.toLowerCase (trim (P.normalizeNFKC value)) = [] then .error .empty
    else if validEmail (P.toLowerCase (trim (P.normalizeNFKC value))) then
      .ok ⟨.email, P.toLowerCase (trim (P.normalizeNFKC value))⟩
    else .error .emailInvalid := by
  unfold canonicalizeEmail validEmail
  simp only [List.length_eq_zero_iff]

theorem canonicalizeEmail_ok_iff {value : JsString} {handle : CanonicalHandle} :
    canonicalizeEmail P value = .ok handle ↔
      handle = ⟨.email, P.toLowerCase (trim (P.normalizeNFKC value))⟩ ∧
        validEmail handle.value = true := by
  rw [canonicalizeEmail_eq]
  constructor
  · intro h
    split at h
    · cases h
    · split at h
      · next hvalid =>
        cases h
        exact ⟨rfl, hvalid⟩
      · cases h
  · rintro ⟨rfl, hvalid⟩
    have hat := emailPattern_at (validEmail_pattern hvalid)
    rw [if_neg (List.ne_nil_of_mem hat), if_pos hvalid]

/-- A valid address is its own canonical value. -/
theorem canonicalizeEmail_of_valid (hP : StandardUnicode P) (h : validEmail text = true) :
    canonicalizeEmail P text = .ok ⟨.email, text⟩ := by
  have hplain := emailPattern_plain (validEmail_pattern h)
  rw [canonicalizeEmail_ok_iff, plain_read hP hplain, plain_lower hP hplain]
  exact ⟨rfl, h⟩

end Email

/-! ## Numbers -/

section Phone

variable {P : Platform} {digits value : JsString} {handle : CanonicalHandle}

/-- A canonical number is a plus and international digits. -/
theorem canonicalizePhone_ok (h : canonicalizePhone P value = .ok handle) :
    ∃ digits, handle = ⟨.phone, 43 :: digits⟩ ∧ internationalDigits digits = true := by
  have hten : ∀ text : JsString, (text.filter isDigit).all isDigit = true := fun text =>
    List.all_eq_true.2 fun c hc => (List.mem_filter.1 hc).2
  unfold canonicalizePhone at h
  dsimp only at h
  generalize trim (P.normalizeNFKC value) = normalized at h
  split at h
  · cases h
  · split at h
    · split at h
      · next hvalid =>
        rw [Bool.and_eq_true] at hvalid
        cases h
        exact ⟨_, rfl, hvalid.2⟩
      · cases h
    · split at h
      · cases h
      · split at h
        · next hlength =>
          cases h
          refine ⟨49 :: normalized.filter isDigit, rfl, ?_⟩
          unfold internationalDigits
          rw [List.all_cons, hten, List.length_cons, hlength, List.head?_cons]
          decide
        · split at h
          · next hlength =>
            cases h
            rw [Bool.and_eq_true, decide_eq_true_eq, decide_eq_true_eq] at hlength
            refine ⟨normalized.filter isDigit, rfl, ?_⟩
            unfold internationalDigits
            rw [hten, hlength.1, hlength.2]
            decide
          · cases h

theorem internationalDigits_all (h : internationalDigits digits = true) :
    digits.all isDigit = true := by
  unfold internationalDigits at h
  rw [Bool.and_eq_true] at h
  exact h.2

theorem internationalDigits_length (h : internationalDigits digits = true) :
    8 ≤ digits.length ∧ digits.length ≤ 15 := by
  unfold internationalDigits at h
  simp only [Bool.and_eq_true, decide_eq_true_eq] at h
  exact ⟨h.1.1.2, h.1.2⟩

theorem number_plain (h : digits.all isDigit = true) : (43 :: digits).all isPlain = true := by
  rw [List.all_cons, Bool.and_eq_true]
  exact ⟨by decide, List.all_eq_true.2 fun c hc => isDigit_plain (List.all_eq_true.1 h c hc)⟩

/-- A plus and international digits are their own canonical value. -/
theorem canonicalizePhone_of_digits (hP : StandardUnicode P) (h : internationalDigits digits = true) :
    canonicalizePhone P (43 :: digits) = .ok ⟨.phone, 43 :: digits⟩ := by
  have hall := internationalDigits_all h
  have hne : digits ≠ [] := by
    rintro rfl
    exact absurd (internationalDigits_length h).1 (by decide)
  have hcharacters : digits.all isPhoneCharacter = true := by
    rw [List.all_eq_true] at hall ⊢
    intro c hc
    unfold isPhoneCharacter
    rw [hall c hc]
    rfl
  have hdigits : digits.filter isDigit = digits :=
    List.filter_eq_self.2 fun c hc => List.all_eq_true.1 hall c hc
  unfold canonicalizePhone
  dsimp only
  rw [plain_read hP (number_plain hall), if_neg (by simp), if_pos List.head?_cons, List.tail_cons,
    hdigits, hcharacters, h, if_pos (by simp [hne])]

end Phone

/-! ## Handles -/

section Handles

variable {P : Platform} {value : JsString} {handle : CanonicalHandle}

/-- A handle is canonicalised as an address if an at-sign is read in it, and else as a number. -/
theorem canonicalizeHandle_eq (hP : StandardUnicode P) (value : JsString) :
    canonicalizeHandle P value =
      if atSign ∈ trim (P.normalizeNFKC value) then canonicalizeEmail P value
      else canonicalizePhone P value := by
  have hread : trim (P.normalizeNFKC (trim (P.normalizeNFKC value))) = trim (P.normalizeNFKC value) := by
    rw [hP.part value (trim _) Texts.strip_infix, trim_trim]
  unfold canonicalizeHandle
  dsimp only
  by_cases hempty : (trim (P.normalizeNFKC value)).length = 0
  · have hnil := List.length_eq_zero_iff.1 hempty
    rw [if_pos hempty, if_neg (by rw [hnil]; exact List.not_mem_nil)]
    unfold canonicalizePhone
    dsimp only
    rw [if_pos hempty]
  · rw [if_neg hempty]
    split
    · rw [canonicalizeEmail_eq, canonicalizeEmail_eq, hread]
    · unfold canonicalizePhone
      rw [hread]

/-- A canonical value can be stored, and is canonicalised to itself. -/
structure CanonicalHandle.Stored (P : Platform) (handle : CanonicalHandle) : Prop where
  fixed : canonicalizeHandle P handle.value = .ok handle
  short : handle.value.length ≤ 320
  lower : P.toLowerCase handle.value = handle.value
  noSpace : ∀ c ∈ handle.value, isSpace c = false
  present : canonicalKeyPresent P handle.value = true
  fits : channelFitsKey .handle handle.value handle.channel.suppression = true

theorem CanonicalHandle.Stored.of_plain (hP : StandardUnicode P)
    (hplain : handle.value.all isPlain = true) (hne : handle.value ≠ [])
    (hshort : handle.value.length ≤ 320)
    (hfixed : canonicalizeHandle P handle.value = .ok handle)
    (hfits : channelFitsKey .handle handle.value handle.channel.suppression = true) :
    handle.Stored P := by
  have hlower := plain_lower hP hplain
  refine ⟨hfixed, hshort, hlower, fun c hc => plain_noSpace hplain hc, ?_, hfits⟩
  have hstrip : Texts.strip (· = 32) handle.value = handle.value := by
    apply Texts.strip_of_forall
    intro c hc
    have hspace := plain_noSpace hplain hc
    simp only [decide_eq_false_iff_not]
    rintro rfl
    exact absurd hspace (by decide)
  unfold canonicalKeyPresent
  simp [hstrip, hne, hlower, hshort]

theorem plain_not_at {digits : JsString} (h : digits.all isDigit = true) : atSign ∉ 43 :: digits := by
  intro hmem
  rcases List.mem_cons.1 hmem with heq | hmem
  · exact absurd heq (by decide)
  · exact absurd (List.all_eq_true.1 h _ hmem) (by decide)

/-- What is canonical of an address is the address; of a number, the number. -/
theorem stored_of_email (hP : StandardUnicode P) (h : canonicalizeEmail P value = .ok handle) :
    handle.Stored P ∧ handle.channel = .email := by
  obtain ⟨rfl, hvalid⟩ := canonicalizeEmail_ok_iff.1 h
  generalize P.toLowerCase (trim (P.normalizeNFKC value)) = text at hvalid ⊢
  change validEmail text = true at hvalid
  have hpattern := validEmail_pattern hvalid
  have hplain := emailPattern_plain hpattern
  have hat := emailPattern_at hpattern
  have hshort : text.length ≤ 254 := by
    unfold validEmail at hvalid
    simp only [Bool.and_eq_true, decide_eq_true_eq] at hvalid
    exact hvalid.1.1.1.1
  refine ⟨.of_plain hP hplain (List.ne_nil_of_mem hat) (hshort.trans (by decide)) ?_ ?_, rfl⟩
  · show canonicalizeHandle P text = _
    rw [canonicalizeHandle_eq hP, plain_read hP hplain, if_pos hat]
    exact canonicalizeEmail_of_valid hP hvalid
  · simp [channelFitsKey, CanonicalChannel.suppression, hat]

theorem stored_of_phone (hP : StandardUnicode P) (h : canonicalizePhone P value = .ok handle) :
    handle.Stored P ∧ handle.channel = .phone := by
  obtain ⟨digits, rfl, hdigits⟩ := canonicalizePhone_ok h
  have hall := internationalDigits_all hdigits
  have hlength := internationalDigits_length hdigits
  have hat := plain_not_at hall
  refine ⟨.of_plain hP (number_plain hall) (List.cons_ne_nil _ _) ?_ ?_ ?_, rfl⟩
  · show digits.length + 1 ≤ 320
    omega
  · show canonicalizeHandle P (43 :: digits) = _
    rw [canonicalizeHandle_eq hP, plain_read hP (number_plain hall), if_neg hat]
    exact canonicalizePhone_of_digits hP hdigits
  · simp [channelFitsKey, CanonicalChannel.suppression, hat]

theorem stored_of_handle (hP : StandardUnicode P) (h : canonicalizeHandle P value = .ok handle) :
    handle.Stored P := by
  rw [canonicalizeHandle_eq hP] at h
  split at h
  · exact (stored_of_email hP h).1
  · exact (stored_of_phone hP h).1

/-- Canonical handles of one value are one. -/
theorem stored_inj {other : CanonicalHandle} (h : handle.Stored P) (h' : other.Stored P)
    (heq : handle.value = other.value) : handle = other := by
  have hfixed := h.fixed
  rw [heq, h'.fixed] at hfixed
  exact (Except.ok.inj hfixed).symm

end Handles

/-! ## Routes -/

section Routes

variable {P : Platform} {routes routes' : List NamedRoute}

theorem handleOfRoute_eq_some {route : NamedRoute} {handle : CanonicalHandle} :
    handleOfRoute P route = some handle ↔
      handle.channel.text = route.channel ∧ canonicalizeHandle P route.value = .ok handle := by
  constructor
  · intro h
    unfold handleOfRoute at h
    split at h
    · cases h
    · split at h
      · cases h
      · next found hfound =>
        split at h
        · cases h
        · next hchannel =>
          cases h
          exact ⟨not_not.1 hchannel, hfound⟩
  · rintro ⟨hchannel, hhandle⟩
    unfold handleOfRoute
    rw [if_neg, hhandle]
    · exact if_neg (not_not.2 hchannel)
    · rw [← hchannel]
      cases handle.channel with
      | phone => exact fun hother => hother.1 rfl
      | email => exact fun hother => hother.2 rfl

instance : Std.Total fun left right : JsString => textLe left right = true where
  total left right := by
    have := textLe_total left right
    rwa [Bool.or_eq_true] at this

instance : IsTrans JsString fun left right => textLe left right = true where
  trans _ _ _ := textLe_trans

instance : Std.Antisymm fun left right : JsString => textLe left right = true where
  antisymm _ _ := textLe_antisymm

/-- The routes come out in the order of their values, no two of one value. -/
theorem canonicalizeRoutes_sorted (P : Platform) (routes : List NamedRoute) :
    (canonicalizeRoutes P routes).Pairwise fun a b => textLt a.value b.value = true := by
  have hsorted := @Firsts.sorted_keepFirst _ _ _ CanonicalHandle.value
    (fun left right => textLe left right = true) _ _ _ (routes.filterMap (handleOfRoute P))
  refine List.Pairwise.imp (fun {a b} hab => ?_) hsorted
  unfold textLt
  rw [Bool.not_eq_true']
  exact Bool.eq_false_iff.2 fun hle => hab.2 (textLe_antisymm hab.1 hle)

/-- The handles of some routes, one to a value. -/
theorem handles_inj (hP : StandardUnicode P) (routes : List NamedRoute) :
    ∀ a ∈ routes.filterMap (handleOfRoute P), ∀ b ∈ routes.filterMap (handleOfRoute P),
      a.value = b.value → a = b := by
  intro a ha b hb heq
  obtain ⟨route, -, hroute⟩ := List.mem_filterMap.1 ha
  obtain ⟨route', -, hroute'⟩ := List.mem_filterMap.1 hb
  exact stored_inj (stored_of_handle hP (handleOfRoute_eq_some.1 hroute).2)
    (stored_of_handle hP (handleOfRoute_eq_some.1 hroute').2) heq

/-- Nothing is left out and nothing made up. -/
theorem mem_canonicalizeRoutes (hP : StandardUnicode P) {handle : CanonicalHandle} :
    handle ∈ canonicalizeRoutes P routes ↔ ∃ route ∈ routes,
      handle.channel.text = route.channel ∧ canonicalizeHandle P route.value = .ok handle := by
  unfold canonicalizeRoutes
  rw [List.mem_insertionSort, Firsts.mem_keepFirst_iff (handles_inj hP routes), List.mem_filterMap]
  simp only [handleOfRoute_eq_some]

/-- Lists of the same routes come out as one list. -/
theorem canonicalizeRoutes_congr (hP : StandardUnicode P)
    (h : ∀ route, route ∈ routes ↔ route ∈ routes') :
    canonicalizeRoutes P routes = canonicalizeRoutes P routes' := by
  apply Firsts.sorted_keepFirst_congr fun left right => textLe left right = true
  · exact handles_inj hP routes
  · intro a
    simp only [List.mem_filterMap, h]

/-- Canonical handles are fixed points, and routes come out as sorted sets of theirs. -/
theorem canonical_handles (hP : StandardUnicode P) :
    (∀ value handle, canonicalizeHandle P value = .ok handle → handle.Stored P) ∧
    (∀ value, canonicalizeHandle P value =
      if atSign ∈ trim (P.normalizeNFKC value) then canonicalizeEmail P value
      else canonicalizePhone P value) ∧
    (∀ routes, (canonicalizeRoutes P routes).Pairwise fun a b => textLt a.value b.value = true) ∧
    (∀ routes handle, handle ∈ canonicalizeRoutes P routes ↔ ∃ route ∈ routes,
      handle.channel.text = route.channel ∧ canonicalizeHandle P route.value = .ok handle) ∧
    ∀ routes routes', (∀ route, route ∈ routes ↔ route ∈ routes') →
      canonicalizeRoutes P routes = canonicalizeRoutes P routes' := by
  refine ⟨fun value handle h => stored_of_handle hP h, canonicalizeHandle_eq hP, ?_, ?_, ?_⟩
  · exact canonicalizeRoutes_sorted P
  · exact fun routes handle => mem_canonicalizeRoutes hP
  · exact fun routes routes' h => canonicalizeRoutes_congr hP h

end Routes

/-- A runtime that knows the basic characters. -/
def basicPlatform : Platform where
  sha256 text := text
  toLowerCase text := text.map basicLower
  normalizeNFKC text := text.map basicNFKC
  isSqlSpace c := c ∈ [9, 10, 11, 12, 13, 32]

theorem basicPlatform_standard : StandardUnicode basicPlatform where
  part text part h := by
    refine (List.map_congr_left fun c hc => ?_).trans (List.map_id part)
    obtain ⟨c', -, rfl⟩ := List.mem_map.1 (h.mem hc)
    show basicNFKC (basicNFKC c') = basicNFKC c'
    by_cases hkelvin : c' = kelvinSign
    · rw [hkelvin]
      decide
    · have hsame : basicNFKC c' = c' := if_neg hkelvin
      rw [hsame, hsame]
  basic text _ := rfl
  lower text _ := rfl
  ofLower text h := by
    rw [List.all_eq_true]
    intro c hc
    have hlower := h (basicLower c) (List.mem_map_of_mem hc)
    unfold isBasic
    rw [Bool.or_eq_true, decide_eq_true_eq, decide_eq_true_eq]
    by_cases hkelvin : c = kelvinSign
    · exact .inr hkelvin
    · unfold basicLower at hlower
      rw [if_neg hkelvin] at hlower
      split at hlower
      · next hupper =>
        rw [UInt16.le_iff_toNat_le, UInt16.le_iff_toNat_le] at hupper
        have hhigh : c.toNat ≤ 90 := hupper.2
        refine .inl (UInt16.lt_iff_toNat_lt.2 ?_)
        show c.toNat < 128
        omega
      · exact .inl hlower

/-- An address with capitals and the address itself, listed once and wherever they stand. -/
theorem canonical_handles_basic :
    ⟨.email, js "ann@acme.example"⟩ ∈ canonicalizeRoutes basicPlatform
        [⟨js "email", js " Ann@Acme.example"⟩, ⟨js "phone", js "(415) 555-0100"⟩,
          ⟨js "email", js "ann@acme.example"⟩] ∧
      canonicalizeRoutes basicPlatform
          [⟨js "email", js " Ann@Acme.example"⟩, ⟨js "phone", js "(415) 555-0100"⟩,
            ⟨js "email", js "ann@acme.example"⟩] =
        canonicalizeRoutes basicPlatform [⟨js "phone", js "(415) 555-0100"⟩,
          ⟨js "email", js "ann@acme.example"⟩, ⟨js "email", js " Ann@Acme.example"⟩] := by
  obtain ⟨-, -, -, hlisted, hsame⟩ := canonical_handles basicPlatform_standard
  constructor
  · refine (hlisted _ _).2 ⟨⟨js "email", js " Ann@Acme.example"⟩, List.mem_cons_self, rfl, ?_⟩
    decide +kernel
  · refine hsame _ _ fun route => ?_
    simp only [List.mem_cons, List.not_mem_nil, or_false]
    tauto

end FoundingSales.Rules
