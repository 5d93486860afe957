import FoundingSales.Crm.Import

/-!
Routes of imported rows, beside the keys under which a do-not-contact request for them is stored.

Proved here:

* `mem_routes_iff`: a row's route is read from its cell alone;
* `email_covered_iff`, `phone_covered_iff`: when a route and its key are one string;
* `imported_routes_covered`: for every row, and for two rows that name one handle;
* `dotted_address_imported`: a route for which no request can be stored.
-/

namespace FoundingSales.Crm.Import

open Rules

def cellOf : CanonicalChannel → ImportColumn
  | .email => .contactEmail
  | .phone => .contactPhone

def canonicalizeAs (P : Platform) (kind : CanonicalChannel) (value : JsString) :
    Except CanonicalizationRefusal CanonicalHandle :=
  match kind with
  | .email => canonicalizeEmail P value
  | .phone => canonicalizePhone P value

/-- The route that a cell of its kind becomes. -/
def routeOf (P : Platform) (kind : CanonicalChannel) (cell : JsString) : Option JsString :=
  match kind with
  | .email =>
    if emailShape (P.toLowerCase cell) && (P.toLowerCase cell).length ≤ 320 then
      some (P.toLowerCase cell)
    else none
  | .phone => canonicalE164 cell

/-- A route that is its own canonical value, and the route of the canonical spelling of its cell. -/
structure Covered (P : Platform) (kind : CanonicalChannel) (cell value : JsString) : Prop where
  canonical : canonicalizeAs P kind value = .ok ⟨kind, value⟩
  same : ∀ handle, canonicalizeAs P kind cell = .ok handle →
    routeOf P kind handle.value = some value

/-- The number that the digits of a text make. -/
def readNumber (text : JsString) : JsString :=
  if text.head? ≠ some 43 ∧ (text.filter isDigit).length = 10 then 49 :: text.filter isDigit
  else text.filter isDigit

/-- An address that is valid as it is written; a number whose digits normalisation leaves. -/
def ReadAlike (P : Platform) (kind : CanonicalChannel) (cell : JsString) : Prop :=
  match kind with
  | .email => validEmail (P.toLowerCase cell) = true
  | .phone => ∀ handle, canonicalizePhone P cell = .ok handle →
      readNumber (trim (P.normalizeNFKC cell)) = readNumber cell

/-! ## The routes of a row -/

section Rows

variable {r : ImportRuntime} {rowNumber : Nat} {at_ : ImportColumn → JsString}

theorem emailShape_ne_nil {text : JsString} (h : emailShape text = true) : text.length ≠ 0 := by
  unfold emailShape at h
  simp only [Bool.and_eq_true, decide_eq_true_eq] at h
  have hlength := h.1.1.1.2
  omega

theorem mem_emailRoutes {rawEmail : JsString} {route : ImportRouteDraft} :
    route ∈ (emailRoutes rawEmail).1 ↔
      (emailShape rawEmail && rawEmail.length ≤ 320) = true ∧ route = ⟨.email, rawEmail⟩ := by
  unfold emailRoutes
  by_cases hempty : rawEmail.length = 0
  · rw [if_pos hempty]
    constructor
    · intro h
      cases h
    · rintro ⟨hshape, -⟩
      rw [Bool.and_eq_true] at hshape
      exact absurd hempty (emailShape_ne_nil hshape.1)
  · rw [if_neg hempty]
    by_cases hshape : (emailShape rawEmail && rawEmail.length ≤ 320) = true
    · rw [if_pos hshape]
      simp [hshape]
    · rw [if_neg hshape]
      simp [hshape]

theorem mem_phoneRoutes {rawPhone : JsString} {route : ImportRouteDraft} :
    route ∈ (phoneRoutes rawPhone).1 ↔
      ∃ canonical, canonicalE164 rawPhone = some canonical ∧ route = ⟨.phone, canonical⟩ := by
  unfold phoneRoutes
  by_cases hempty : rawPhone.length = 0
  · rw [if_pos hempty, List.length_eq_zero_iff.1 hempty]
    constructor
    · intro h
      cases h
    · rintro ⟨canonical, hcanonical, -⟩
      cases hcanonical
  · rw [if_neg hempty]
    cases canonicalE164 rawPhone with
    | none => simp
    | some canonical => simp

theorem routeOf_email_iff {P : Platform} {cell value : JsString} :
    routeOf P .email cell = some value ↔
      (emailShape (P.toLowerCase cell) && (P.toLowerCase cell).length ≤ 320) = true ∧
        value = P.toLowerCase cell := by
  unfold routeOf
  dsimp only
  split
  · next hshape =>
    rw [Option.some.injEq]
    exact ⟨fun h => ⟨hshape, h.symm⟩, fun h => h.2.symm⟩
  · next hshape => exact iff_of_false (by simp) fun h => hshape h.1

/-- A route is what its cell becomes. -/
theorem mem_routes_iff {route : ImportRouteDraft} : route ∈ (draftOf r rowNumber at_).routes ↔
    routeOf r.toPlatform route.kind (trim (at_ (cellOf route.kind))) = some route.value := by
  obtain ⟨kind, value⟩ := route
  show _ ∈ (emailRoutes (r.toLowerCase (trim (at_ .contactEmail)))).1 ++
    (phoneRoutes (trim (at_ .contactPhone))).1 ↔ _
  rw [List.mem_append, mem_emailRoutes, mem_phoneRoutes]
  cases kind with
  | email =>
    simp only [routeOf_email_iff, cellOf, ImportRouteDraft.mk.injEq, true_and, reduceCtorEq,
      false_and, and_false, exists_false, or_false]
  | phone =>
    simp only [routeOf, cellOf, ImportRouteDraft.mk.injEq, reduceCtorEq, false_and, and_false,
      true_and, false_or, exists_eq_right']

end Rows

/-! ## Addresses -/

section Email

variable {P : Platform} {cell value : JsString}

/-- A text whose lower case is plain is read with that lower case. -/
theorem lower_read (hP : StandardUnicode P) (h : (P.toLowerCase cell).all isPlain = true) :
    P.toLowerCase (trim (P.normalizeNFKC cell)) = P.toLowerCase cell := by
  have hbasic : cell.all isBasic = true := hP.ofLower cell fun c hc => by
    have hplain := List.all_eq_true.1 h c hc
    unfold isPlain at hplain
    simp only [Bool.and_eq_true, decide_eq_true_eq] at hplain
    exact hplain.1.1
  have hnormal := basicNFKC_basic hbasic
  have hlower : P.toLowerCase (P.normalizeNFKC cell) = P.toLowerCase cell := by
    rw [hP.basic cell hbasic, hP.lower _ hnormal, hP.lower cell hbasic, List.map_map]
    exact List.map_congr_left fun c _ => basicLower_basicNFKC c
  have htrim : trim (P.normalizeNFKC cell) = P.normalizeNFKC cell := by
    apply Texts.strip_of_forall
    intro c hc
    rw [← hlower, hP.basic cell hbasic, hP.lower _ hnormal] at h
    rw [hP.basic cell hbasic] at hc
    have hspace := plain_noSpace h (List.mem_map_of_mem hc)
    by_contra hnot
    rw [basicLower_of_space (Bool.not_eq_false _ ▸ hnot)] at hspace
    exact hnot hspace
  rw [htrim, hlower]

/-- An imported address is covered exactly when it is a valid one as it is written. -/
theorem email_covered_iff (hP : StandardUnicode P) (h : routeOf P .email cell = some value) :
    Covered P .email cell value ↔ ReadAlike P .email cell := by
  obtain ⟨hshape, rfl⟩ := routeOf_email_iff.1 h
  constructor
  · intro hcovered
    have hself := hcovered.canonical
    change canonicalizeEmail P _ = _ at hself
    exact (canonicalizeEmail_ok_iff.1 hself).2
  · intro hvalid
    change validEmail (P.toLowerCase cell) = true at hvalid
    have hplain := emailPattern_plain (validEmail_pattern hvalid)
    refine ⟨canonicalizeEmail_of_valid hP hvalid, fun handle hhandle => ?_⟩
    obtain ⟨rfl, -⟩ := canonicalizeEmail_ok_iff.1 hhandle
    show routeOf P .email (P.toLowerCase (trim (P.normalizeNFKC cell))) = _
    rw [lower_read hP hplain, routeOf_email_iff, plain_lower hP hplain]
    exact ⟨hshape, rfl⟩

end Email

/-! ## Numbers -/

section Phone

variable {P : Platform} {cell value : JsString}

/-- Without a plus, ten digits are read with the country's. -/
theorem readNumber_of_plus {text : JsString} (h : text.head? = some 43) :
    readNumber text = text.filter isDigit := if_neg fun hnot => hnot.1 h

theorem readNumber_of_ten {text : JsString} (h : text.head? ≠ some 43)
    (hten : (text.filter isDigit).length = 10) : readNumber text = 49 :: text.filter isDigit :=
  if_pos ⟨h, hten⟩

theorem readNumber_of_ne_ten {text : JsString} (hten : (text.filter isDigit).length ≠ 10) :
    readNumber text = text.filter isDigit := if_neg fun hnot => hten hnot.2

theorem canonicalE164_some {raw : JsString} (h : canonicalE164 raw = some value) :
    value = 43 :: readNumber (trim raw) ∧ internationalDigits (readNumber (trim raw)) = true := by
  unfold canonicalE164 at h
  dsimp only at h
  generalize trim raw = trimmed at h ⊢
  have hshape : ∀ digits, e164Shape (43 :: digits) = true → internationalDigits digits = true :=
    fun digits hdigits => by
      unfold e164Shape at hdigits
      rw [Bool.and_eq_true] at hdigits
      exact hdigits.2
  split at h
  · cases h
  · split at h
    · next hplus =>
      obtain ⟨rfl, hdigits⟩ := Option.filter_eq_some_iff.1 h |>.imp Option.some.inj id
      rw [readNumber_of_plus hplus]
      exact ⟨rfl, hshape _ hdigits⟩
    · next hplus =>
      split at h
      · next hten =>
        obtain ⟨rfl, hdigits⟩ := Option.filter_eq_some_iff.1 h |>.imp Option.some.inj id
        rw [readNumber_of_ten hplus hten]
        exact ⟨rfl, hshape _ hdigits⟩
      · next hten =>
        rw [readNumber_of_ne_ten hten]
        split at h
        · obtain ⟨rfl, hdigits⟩ := Option.filter_eq_some_iff.1 h |>.imp Option.some.inj id
          exact ⟨rfl, hshape _ hdigits⟩
        · cases h

theorem canonicalE164_of_digits {digits : JsString} (h : internationalDigits digits = true) :
    canonicalE164 (43 :: digits) = some (43 :: digits) := by
  have hall := internationalDigits_all h
  have htrim : trim (43 :: digits) = 43 :: digits :=
    Texts.strip_of_forall fun c hc => plain_noSpace (number_plain hall) hc
  have hdigits : (43 :: digits).filter isDigit = digits := by
    rw [List.filter_cons_of_neg (by decide)]
    exact List.filter_eq_self.2 fun c hc => List.all_eq_true.1 hall c hc
  have hshape : e164Shape (43 :: digits) = true := by
    unfold e164Shape
    simp [h]
  unfold canonicalE164
  dsimp only
  rw [htrim, if_neg (by simp), hdigits, if_pos List.head?_cons, Option.filter_some, if_pos hshape]

theorem canonicalizePhone_value {handle : CanonicalHandle}
    (h : canonicalizePhone P cell = .ok handle) :
    handle.value = 43 :: readNumber (trim (P.normalizeNFKC cell)) := by
  unfold canonicalizePhone at h
  dsimp only at h
  generalize trim (P.normalizeNFKC cell) = normalized at h ⊢
  split at h
  · cases h
  · split at h
    · next hplus =>
      split at h
      · cases h
        rw [readNumber_of_plus hplus]
        cases normalized with
        | nil => cases hplus
        | cons c text =>
          rw [List.head?_cons, Option.some.injEq] at hplus
          rw [hplus, List.filter_cons_of_neg (by decide), List.tail_cons]
      · cases h
    · next hplus =>
      split at h
      · cases h
      · split at h
        · next hten =>
          cases h
          rw [readNumber_of_ten hplus hten]
          rfl
        · next hten =>
          rw [readNumber_of_ne_ten hten]
          split at h
          · cases h
            rfl
          · cases h

/-- An imported number is covered exactly when normalisation leaves the number its digits make. -/
theorem phone_covered_iff (hP : StandardUnicode P) (hcell : trim cell = cell)
    (h : routeOf P .phone cell = some value) :
    Covered P .phone cell value ↔ ReadAlike P .phone cell := by
  obtain ⟨hvalue, hdigits⟩ := canonicalE164_some h
  rw [hcell] at hvalue hdigits
  subst hvalue
  constructor
  · intro hcovered handle hhandle
    have hsame := hcovered.same handle hhandle
    obtain ⟨digits, rfl, hinternational⟩ := canonicalizePhone_ok hhandle
    have hread := canonicalizePhone_value hhandle
    change canonicalE164 (43 :: digits) = _ at hsame
    rw [canonicalE164_of_digits hinternational, Option.some.injEq] at hsame
    exact (List.cons.inj (hread.symm.trans hsame)).2
  · intro hread
    refine ⟨canonicalizePhone_of_digits hP hdigits, fun handle hhandle => ?_⟩
    show canonicalE164 handle.value = _
    rw [canonicalizePhone_value hhandle, hread handle hhandle]
    exact canonicalE164_of_digits hdigits

end Phone

/-! ## Every row -/

section Covered

variable {P : Platform} {kind : CanonicalChannel} {cell cell' value value' : JsString}
  {handle : CanonicalHandle}

theorem covered_iff (hP : StandardUnicode P) (hcell : trim cell = cell)
    (h : routeOf P kind cell = some value) : Covered P kind cell value ↔ ReadAlike P kind cell := by
  cases kind with
  | email => exact email_covered_iff hP h
  | phone => exact phone_covered_iff hP hcell h

/-- Covered routes whose cells name one handle are one. -/
theorem Covered.unique (h : Covered P kind cell value) (h' : Covered P kind cell' value')
    (hnamed : canonicalizeAs P kind cell = .ok handle)
    (hnamed' : canonicalizeAs P kind cell' = .ok handle) : value = value' :=
  Option.some.inj ((h.same handle hnamed).symm.trans (h'.same handle hnamed'))

/-- For every row: its routes are covered exactly when their cells are read alike; and two such cells
that name one handle are one route. -/
theorem imported_routes_covered (r : ImportRuntime) (hr : StandardUnicode r.toPlatform) :
    (∀ rowNumber at_, ∀ route ∈ (draftOf r rowNumber at_).routes,
      Covered r.toPlatform route.kind (trim (at_ (cellOf route.kind))) route.value ↔
        ReadAlike r.toPlatform route.kind (trim (at_ (cellOf route.kind)))) ∧
    ∀ rowNumber at_ rowNumber' at_', ∀ route ∈ (draftOf r rowNumber at_).routes,
      ∀ route' ∈ (draftOf r rowNumber' at_').routes, route.kind = route'.kind →
      ReadAlike r.toPlatform route.kind (trim (at_ (cellOf route.kind))) →
      ReadAlike r.toPlatform route'.kind (trim (at_' (cellOf route'.kind))) →
      ∀ handle, canonicalizeAs r.toPlatform route.kind (trim (at_ (cellOf route.kind))) = .ok handle →
        canonicalizeAs r.toPlatform route'.kind (trim (at_' (cellOf route'.kind))) = .ok handle →
        route.value = route'.value := by
  have hcovered : ∀ rowNumber at_, ∀ route ∈ (draftOf r rowNumber at_).routes,
      Covered r.toPlatform route.kind (trim (at_ (cellOf route.kind))) route.value ↔
        ReadAlike r.toPlatform route.kind (trim (at_ (cellOf route.kind))) :=
    fun rowNumber at_ route hroute => covered_iff hr (trim_trim _) (mem_routes_iff.1 hroute)
  refine ⟨hcovered, ?_⟩
  intro rowNumber at_ rowNumber' at_' route hroute route' hroute' hkind hread hread' handle hnamed hnamed'
  have h := (hcovered rowNumber at_ route hroute).2 hread
  have h' := (hcovered rowNumber' at_' route' hroute').2 hread'
  rw [← hkind] at h' hnamed'
  exact h.unique h' hnamed hnamed'

end Covered

/-- A runtime of basic characters, whose host names are what follows the scheme. -/
def basicRuntime : ImportRuntime where
  toPlatform := basicPlatform
  toUpperCase text := text.map fun c => if 97 ≤ c ∧ c ≤ 122 then c - 32 else c
  hostname url := some (url.drop 8)
  isKnownTimeZone _ := true

def annRow : ImportColumn → JsString
  | .contactName => js "Ann"
  | .contactEmail => js "Ann@Acme.example"
  | _ => []

theorem imported_routes_covered_ann :
    Covered basicPlatform .email (js "Ann@Acme.example") (js "ann@acme.example") :=
  ((imported_routes_covered basicRuntime basicPlatform_standard).1 2 annRow
    ⟨.email, js "ann@acme.example"⟩ (by decide +kernel)).2
    (show validEmail _ = true by decide +kernel)

/-- Two dots: the row makes a route, and no key is made of it. -/
theorem dotted_address_imported :
    ∃ at_ : ImportColumn → JsString, ∃ route ∈ (draftOf basicRuntime 2 at_).routes,
      (draftOf basicRuntime 2 at_).issues = [] ∧ route = ⟨.email, js "ann..lee@acme.example"⟩ ∧
        canonicalizeEmail basicPlatform route.value = .error .emailInvalid := by
  refine ⟨fun column => match column with
    | .firmName => js "Acme"
    | .contactName => js "Ann"
    | .contactEmail => js "ann..lee@acme.example"
    | _ => [], ⟨.email, js "ann..lee@acme.example"⟩, ?_, ?_, rfl, ?_⟩
  · decide +kernel
  · decide +kernel
  · decide +kernel

end FoundingSales.Crm.Import
