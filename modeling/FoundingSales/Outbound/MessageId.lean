import FoundingSales.Outbound.Fence

/-!
The two encoders of a fence's Message-ID against the one decoder that reads a Sent folder.
The decoder is characterised by the markers it accepts (`fssFenceIdOfSentMessage_eq_some`);
whether a prepared fence is recognised then depends on one thing, the domain it was written
with.
-/

namespace FoundingSales.Outbound

open Texts Processes

/-! ## The groups of the patterns -/

/-- `[0-9a-f-]{36}` -/
def UuidShape (text : JsString) : Prop := text.length = 36 ∧ ∀ c ∈ text, isHexOrDash c = true

/-- `[^<>@]+` -/
def DomainText (text : JsString) : Prop :=
  text ≠ [] ∧ ∀ c ∈ text, c ≠ 60 ∧ c ≠ 62 ∧ c ≠ atSign

theorem uuidShape_of_canonical {text : JsString} (h : canonicalUuid text = true) :
    UuidShape text := by
  simp only [canonicalUuid, Bool.and_eq_true, decide_eq_true_eq, List.all_eq_true] at h
  refine ⟨h.1, fun c hc => ?_⟩
  obtain ⟨i, hi, rfl⟩ := List.getElem_of_mem hc
  have hat := h.2 (text[i], i) (List.mem_zipIdx_iff_getElem?.2 (List.getElem?_eq_getElem hi))
  dsimp only at hat
  split at hat
  · simp [isHexOrDash, of_decide_eq_true hat]
  · simp [isHexOrDash, hat]

theorem afterPrefix_eq_some {start text rest : JsString} :
    afterPrefix start text = some rest ↔ text = start ++ rest := by
  unfold afterPrefix
  split
  next h =>
    obtain ⟨tail, rfl⟩ := List.isPrefixOf_iff_prefix.1 h
    simp
  next h =>
    refine ⟨fun hnone => by simp at hnone, ?_⟩
    rintro rfl
    exact absurd (List.isPrefixOf_iff_prefix.2 (List.prefix_append _ _)) h

theorem uuidGroup_eq_some {text id rest : JsString} :
    uuidGroup text = some (id, rest) ↔ UuidShape id ∧ text = id ++ rest := by
  unfold uuidGroup
  constructor
  · intro h
    split at h
    next hshape =>
      obtain ⟨rfl, rfl⟩ := Prod.mk.inj (Option.some.inj h)
      simp only [Bool.and_eq_true, decide_eq_true_eq, List.all_eq_true] at hshape
      exact ⟨hshape, (List.take_append_drop 36 text).symm⟩
    next => cases h
  · rintro ⟨⟨hlength, hall⟩, rfl⟩
    rw [List.take_left' hlength, List.drop_left' hlength, if_pos]
    simpa [hlength] using hall

theorem isDomainTail_iff {text : JsString} :
    isDomainTail text = true ↔ ∃ domain, DomainText domain ∧ text = domain ++ js ">" := by
  constructor
  · intro h
    simp only [isDomainTail, Bool.and_eq_true, decide_eq_true_eq, List.all_eq_true] at h
    obtain ⟨⟨hlast, hlength⟩, hall⟩ := h
    refine ⟨text.dropLast, ⟨?_, fun c hc => ?_⟩, (List.dropLast_append_getLast? 62 hlast).symm⟩
    · intro hnil
      have := congrArg List.length hnil
      simp only [List.length_dropLast, List.length_nil] at this
      omega
    · have := hall c hc
      simpa [and_assoc] using this
  · rintro ⟨domain, ⟨hne, hall⟩, rfl⟩
    have hpos := List.length_pos_iff.2 hne
    have hlast : (domain ++ js ">").getLast? = some 62 := by simp [js, codeUnits]
    have hdrop : (domain ++ js ">").dropLast = domain := by simp [js, codeUnits]
    have hlength : (domain ++ js ">").length > 1 := by simp [js, codeUnits]; omega
    simp only [isDomainTail, hlast, hdrop, hlength, Bool.and_eq_true, decide_true, and_self,
      true_and, List.all_eq_true]
    intro c hc
    simpa [and_assoc] using hall c hc

theorem fenceGroup_eq_some {text id : JsString} :
    fenceGroup text = some id ↔
      UuidShape id ∧ ∃ domain, DomainText domain ∧ text = id ++ js "@" ++ domain ++ js ">" := by
  unfold fenceGroup
  simp only [bind, Option.bind_eq_some_iff, Prod.exists, uuidGroup_eq_some, afterPrefix_eq_some]
  constructor
  · rintro ⟨id', rest, ⟨hid, rfl⟩, tail, rfl, htail⟩
    split at htail
    next h =>
      cases htail
      obtain ⟨domain, hdomain, rfl⟩ := isDomainTail_iff.1 h
      exact ⟨hid, domain, hdomain, by simp⟩
    next => cases htail
  · rintro ⟨hid, domain, hdomain, rfl⟩
    refine ⟨id, js "@" ++ (domain ++ js ">"), ⟨hid, by simp⟩, domain ++ js ">", rfl, ?_⟩
    rw [if_pos (isDomainTail_iff.2 ⟨domain, hdomain, rfl⟩)]

theorem humanReplyGroups_eq_some {text source id : JsString} :
    humanReplyGroups text = some (source, id) ↔
      UuidShape source ∧ UuidShape id ∧
        ∃ domain, DomainText domain ∧ text = deterministicHumanReplyMessageId source id domain := by
  unfold humanReplyGroups deterministicHumanReplyMessageId
  simp only [bind, Option.bind_eq_some_iff, Prod.exists, uuidGroup_eq_some, afterPrefix_eq_some,
    fenceGroup_eq_some, Option.some.injEq, Prod.mk.injEq]
  constructor
  · rintro ⟨_, rfl, source', _, ⟨hsource, rfl⟩, _, rfl, id', ⟨hid, domain, hdomain, rfl⟩, rfl, rfl⟩
    exact ⟨hsource, hid, domain, hdomain, by simp only [List.append_assoc]⟩
  · rintro ⟨hsource, hid, domain, hdomain, rfl⟩
    exact ⟨_, rfl, source, _, ⟨hsource, List.append_assoc _ _ _⟩, _, rfl, id,
      ⟨hid, domain, hdomain, rfl⟩, rfl, rfl⟩

theorem stepGroup_eq_some {text id : JsString} :
    (afterPrefix (js "<fss.") text).bind fenceGroup = some id ↔
      UuidShape id ∧ ∃ domain, DomainText domain ∧ text = deterministicMessageId id domain := by
  simp only [Option.bind_eq_some_iff, afterPrefix_eq_some, fenceGroup_eq_some,
    deterministicMessageId]
  constructor
  · rintro ⟨_, rfl, hid, domain, hdomain, rfl⟩
    exact ⟨hid, domain, hdomain, rfl⟩
  · rintro ⟨hid, domain, hdomain, rfl⟩
    exact ⟨_, rfl, hid, domain, hdomain, rfl⟩

/-! ## The decoder -/

/-- The two shapes of an FSS Message-ID. -/
inductive Marker (fenceId domain : JsString) : JsString → Prop
  | step : Marker fenceId domain (deterministicMessageId fenceId domain)
  | humanReply (source : JsString) (hsource : canonicalUuid source = true) :
      Marker fenceId domain (deterministicHumanReplyMessageId source fenceId domain)

section Decoder

variable {header source id domain : JsString}

theorem humanReplySourceIdOfMessageId_eq_some :
    humanReplySourceIdOfMessageId header = some source ↔
      canonicalUuid source = true ∧ ∃ id domain, canonicalUuid id = true ∧ DomainText domain ∧
        trim header = deterministicHumanReplyMessageId source id domain := by
  unfold humanReplySourceIdOfMessageId
  constructor
  · intro h
    split at h
    next source' id' hgroups =>
      split at h
      next hcanonical =>
        cases h
        obtain ⟨-, -, domain, hdomain, heq⟩ := humanReplyGroups_eq_some.1 hgroups
        rw [Bool.and_eq_true] at hcanonical
        exact ⟨hcanonical.1, id', domain, hcanonical.2, hdomain, heq⟩
      next => cases h
    next => cases h
  · rintro ⟨hsource, id, domain, hid, hdomain, heq⟩
    have hgroups : humanReplyGroups (trim header) = some (source, id) :=
      humanReplyGroups_eq_some.2
        ⟨uuidShape_of_canonical hsource, uuidShape_of_canonical hid, domain, hdomain, heq⟩
    simp [hgroups, hsource, hid]

/-- `r` is no hexadecimal digit, so no step's header reads as a human reply's. -/
theorem deterministicMessageId_ne_humanReply {id' domain' : JsString} (hid : UuidShape id) :
    deterministicMessageId id domain ≠ deterministicHumanReplyMessageId source id' domain' := by
  intro h
  cases id with
  | nil => simp [UuidShape] at hid
  | cons c rest =>
    have hc := hid.2 c (by simp)
    have hr : c = 114 := by
      simp [deterministicMessageId, deterministicHumanReplyMessageId, js, codeUnits] at h
      exact h.1
    rw [hr] at hc
    exact absurd hc (by decide)

theorem fenceIdOfMessageId_of_marker (hid : canonicalUuid id = true) (hdomain : DomainText domain)
    (h : Marker id domain (trim header)) : fenceIdOfMessageId header = some id := by
  have hshape := uuidShape_of_canonical hid
  unfold fenceIdOfMessageId
  generalize htext : trim header = text at h
  cases h with
  | step =>
    have hnone : humanReplySourceIdOfMessageId header = none := by
      rw [Option.eq_none_iff_forall_ne_some]
      intro source hsource
      obtain ⟨-, id', domain', -, -, heq⟩ := humanReplySourceIdOfMessageId_eq_some.1 hsource
      exact deterministicMessageId_ne_humanReply hshape (htext.symm.trans heq)
    rw [hnone, Option.isSome_none, if_neg Bool.false_ne_true]
    exact stepGroup_eq_some.2 ⟨hshape, domain, hdomain, rfl⟩
  | humanReply source hsource =>
    have hsome := humanReplySourceIdOfMessageId_eq_some.2
      ⟨hsource, id, domain, hid, hdomain, htext⟩
    have hgroups := humanReplyGroups_eq_some.2
      ⟨uuidShape_of_canonical hsource, hshape, domain, hdomain, rfl⟩
    rw [hsome, Option.isSome_some, if_pos rfl, hgroups]
    rfl

theorem marker_of_fenceIdOfMessageId (h : fenceIdOfMessageId header = some id) :
    ∃ domain, DomainText domain ∧ Marker id domain (trim header) := by
  unfold fenceIdOfMessageId at h
  split at h
  next hsome =>
    obtain ⟨source, hsource⟩ := Option.isSome_iff_exists.1 hsome
    obtain ⟨hcanonical, id', domain, hid', hdomain, heq⟩ :=
      humanReplySourceIdOfMessageId_eq_some.1 hsource
    rw [heq, humanReplyGroups_eq_some.2 ⟨uuidShape_of_canonical hcanonical,
      uuidShape_of_canonical hid', domain, hdomain, rfl⟩] at h
    cases h
    exact ⟨domain, hdomain, heq ▸ .humanReply source hcanonical⟩
  next =>
    obtain ⟨-, domain, hdomain, heq⟩ := stepGroup_eq_some.1 h
    exact ⟨domain, hdomain, heq ▸ .step⟩

theorem atSign_not_mem_of_uuidShape (h : UuidShape id) : atSign ∉ id := fun hmem =>
  absurd (h.2 _ hmem) (by decide)

/-- A marker's domain follows its only at-sign. -/
theorem Marker.eq_append {text : JsString} (hid : UuidShape id) (h : Marker id domain text) :
    ∃ front, atSign ∉ front ∧ text = 60 :: front ++ atSign :: (domain ++ js ">") := by
  have hno := atSign_not_mem_of_uuidShape hid
  cases h with
  | step =>
    refine ⟨js "fss." ++ id, ?_, by simp [deterministicMessageId, js, codeUnits, atSign]⟩
    exact List.not_mem_append (by decide) hno
  | humanReply source hsource =>
    have hno' := atSign_not_mem_of_uuidShape (uuidShape_of_canonical hsource)
    refine ⟨js "fss.reply." ++ (source ++ (js "." ++ id)), ?_,
      by simp [deterministicHumanReplyMessageId, js, codeUnits, atSign]⟩
    exact List.not_mem_append (by decide)
      (List.not_mem_append hno' (List.not_mem_append (by decide) hno))

theorem Marker.trim_eq {text : JsString} (hid : UuidShape id) (h : Marker id domain text) :
    trim text = text := by
  obtain ⟨front, -, rfl⟩ := h.eq_append hid
  have hends : 60 :: front ++ atSign :: (domain ++ js ">")
      = 60 :: (front ++ atSign :: domain) ++ [62] := by simp [js, codeUnits]
  rw [hends]
  exact strip_eq_self (by decide) (by decide)

/-- What the table asks of a header leaves its domain without brackets and at-signs. -/
theorem Marker.domainText {P : Platform} {text : JsString} (hid : UuidShape id)
    (h : Marker id domain text) (hshape : headerShape P text = true) : DomainText domain := by
  obtain ⟨front, hfront, rfl⟩ := h.eq_append hid
  have hlocal : (front ++ atSign :: (domain ++ js ">")).takeWhile (· != atSign) = front := by
    have hall : ∀ c ∈ front, (c != atSign) = true := by
      intro c hc
      simpa using ne_of_mem_of_not_mem hc hfront
    rw [List.takeWhile_append_of_pos hall]
    simp
  have hdomain : ((front ++ atSign :: (domain ++ js ">")).drop (front.length + 1)).dropLast
      = domain := by simp [List.drop_append, js, codeUnits]
  have hdrop : (60 :: front ++ atSign :: (domain ++ js ">")).drop 1
      = front ++ atSign :: (domain ++ js ">") := rfl
  simp only [headerShape, hdrop, hlocal, hdomain, Bool.and_eq_true, decide_eq_true_eq,
    List.all_eq_true] at hshape
  obtain ⟨⟨⟨⟨-, hne⟩, -⟩, hall⟩, -⟩ := hshape
  refine ⟨hne, fun c hc => ?_⟩
  have := hall c hc
  exact ⟨this.1.1.1, this.1.1.2, this.1.2⟩

/-- The decoder reads off a marker the domain it was written with. -/
theorem Marker.domain_eq {text : JsString} (hid : UuidShape id) (hdomain : DomainText domain)
    (h : Marker id domain text) : (afterLastAt text).dropLast = domain := by
  obtain ⟨front, -, rfl⟩ := h.eq_append hid
  have htail : afterLastAt (60 :: front ++ atSign :: (domain ++ js ">")) = domain ++ js ">" := by
    refine rtakeWhile_append_cons (by simp) fun c hc => ?_
    rcases List.mem_append.1 hc with hc | hc
    · simpa using (hdomain.2 c hc).2.2
    · obtain rfl : c = 62 := by simpa [js, codeUnits] using hc
      decide
  rw [htail]
  simp [js, codeUnits]

theorem fssFenceIdOfSentMessage_eq_some {P : Platform} {mailboxAddress : JsString} :
    fssFenceIdOfSentMessage P header mailboxAddress = some id ↔
      canonicalUuid id = true ∧ ∃ domain, DomainText domain ∧
        P.toLowerCase domain = mailboxDomain P mailboxAddress ∧ Marker id domain (trim header) := by
  unfold fssFenceIdOfSentMessage
  dsimp only
  constructor
  · intro h
    split at h
    next => cases h
    next id' hid' =>
      split at h
      next hcanonical =>
        split at h
        next hmatch =>
          cases h
          obtain ⟨domain, hdomain, hmarker⟩ := marker_of_fenceIdOfMessageId hid'
          rw [trim_trim] at hmarker
          rw [hmarker.domain_eq (uuidShape_of_canonical hcanonical) hdomain] at hmatch
          exact ⟨hcanonical, domain, hdomain, hmatch, hmarker⟩
        next => cases h
      next => cases h
  · rintro ⟨hcanonical, domain, hdomain, hmatch, hmarker⟩
    have hid : fenceIdOfMessageId (trim header) = some id :=
      fenceIdOfMessageId_of_marker hcanonical hdomain (by rwa [trim_trim])
    simp only [hid, hcanonical, if_true, hmatch,
      hmarker.domain_eq (uuidShape_of_canonical hcanonical) hdomain]

end Decoder

/-! ## Prepared fences -/

/-- The rows the preparing functions insert for a mailbox of this address, with the domain
the header was written with: a step takes the address's own, a human reply the workspace's
primary one. -/
inductive PreparedFor (P : Platform) (mailboxAddress : JsString) : JsString → Fence → Prop
  | step (request : OutboundEmailRequest) (mailbox : MailboxRow) (routeVersion : Option Nat)
      (id : Uuid) (haddress : mailbox.emailAddress = mailboxAddress)
      (hshape : headerShape P
        (stepFence P request mailbox routeVersion id).providerMessageIdHeader = true) :
      PreparedFor P mailboxAddress (afterLastAt mailboxAddress)
        (stepFence P request mailbox routeVersion id)
  | humanReply (input : HumanReplyInput) (id domain : JsString) (now : Instant)
      (hshape : headerShape P
        (humanReplyFence P input id domain now).providerMessageIdHeader = true) :
      PreparedFor P mailboxAddress domain (humanReplyFence P input id domain now)

/-- A statement of a preparing function: the rows it adds are prepared for some mailbox. -/
def Prepares (P : Platform) (_ : ProcessId) (a b : Unit × Store) : Prop :=
  ∀ row ∈ b.2.messages, row ∈ a.2.messages ∨ ∃ address written, PreparedFor P address written row

section Prepares

variable {P : Platform} {p : ProcessId} {context : RepositoryContext}

private theorem prepares_refl (s : Store) : Prepares P p ((), s) ((), s) := fun _ h => .inl h

private theorem prepares_read {α β : Type} {read : Env → Store → β} {f : β → FenceProg α}
    (hf : ∀ b, (f b).Obeys (Prepares P) p (fun _ _ => True) ()) :
    (Prog.ask read >>= f).Obeys (Prepares P) p (fun _ _ => True) () :=
  Prog.obeys_ask_bind prepares_refl hf

private theorem prepares_append {input : AppendEvent} :
    (appendEvent input).Obeys (Prepares P) p (fun _ _ => True) () :=
  Prog.obeys_effect fun _ _ => ⟨(), fun _ h => .inl h, trivial⟩

theorem insertFence_prepares {conflict : OnConflict} {values : Env → Fence}
    (hvalues : ∀ e, headerShape P (values e).providerMessageIdHeader = true →
      ∃ address written, PreparedFor P address written (values e)) :
    (insertFence P conflict values).Obeys (Prepares P) p (fun _ _ => True) () := by
  refine Prog.obeys_single fun e s r s' hact => ⟨(), ?_, trivial⟩
  simp only at hact
  split at hact
  case isFalse => cases hact
  next hchecks =>
  rw [Bool.and_eq_true] at hchecks
  split at hact
  · cases hact
    exact prepares_refl s
  split at hact
  · split at hact
    · cases hact
      exact prepares_refl s
    · cases hact
  cases hinsert : s.messages.insert? (values e) with
  | none =>
    simp only [hinsert] at hact
    split at hact
    · cases hact
      exact prepares_refl s
    · cases hact
  | some messages =>
    simp only [hinsert, Option.some.injEq, Prod.mk.injEq] at hact
    obtain ⟨-, rfl⟩ := hact
    intro row hrow
    rcases (Tables.Table.mem_insert? hinsert).1 hrow with hrow | rfl
    · exact .inl hrow
    · exact .inr (hvalues e hchecks.1)

theorem prepareHumanReplyFence_prepares (input : HumanReplyInput) :
    (prepareHumanReplyFence P context input).Obeys (Prepares P) p (fun _ _ => True) () := by
  refine prepares_read fun existing => ?_
  cases existing with
  | some existing => exact trivial
  | none =>
    dsimp only
    split
    · exact trivial
    split
    · exact trivial
    refine prepares_read fun id => prepares_read fun domain => ?_
    cases domain with
    | none => exact trivial
    | some domain =>
      dsimp only
      split
      · exact trivial
      refine Prog.obeys_bind (insertFence_prepares fun e hshape =>
        ⟨[], domain, .humanReply input id domain e.clock hshape⟩) fun _ inserted _ => ?_
      cases inserted with
      | none => exact trivial
      | some row => exact Prog.obeys_bind prepares_append fun _ _ _ => trivial

theorem prepareOutboundMessage_prepares (request : OutboundEmailRequest) :
    (prepareOutboundMessage P context request).Obeys (Prepares P) p (fun _ _ => True) () := by
  refine prepares_read fun existing => ?_
  cases existing with
  | some existing => exact trivial
  | none =>
    dsimp only
    split
    · exact trivial
    split
    · exact trivial
    refine prepares_read fun template => ?_
    cases template with
    | none => exact trivial
    | some template =>
      dsimp only
      split
      · exact trivial
      split
      · exact trivial
      refine prepares_read fun mailbox => ?_
      cases mailbox with
      | none => exact trivial
      | some mailbox =>
        dsimp only
        split
        · exact trivial
        refine prepares_read fun routeVersion => prepares_read fun id =>
          prepares_read fun refusal => ?_
        cases refusal with
        | some reason => exact trivial
        | none =>
          refine Prog.obeys_bind (insertFence_prepares fun _ hshape =>
            ⟨_, _, .step request mailbox routeVersion id rfl hshape⟩) fun _ inserted _ => ?_
          cases inserted with
          | none =>
            refine prepares_read fun raced => ?_
            cases raced <;> exact trivial
          | some row =>
            exact prepares_read fun _ => Prog.obeys_bind prepares_append fun _ _ _ => trivial

end Prepares

/-- `gen_random_uuid()` and the draft's key, as the database prints them. -/
def CanonicalIds (fence : Fence) : Prop :=
  canonicalUuid fence.id = true ∧ ∀ draftId ∈ fence.draftId, canonicalUuid draftId = true

section Recognition

variable {P : Platform} {mailboxAddress written : JsString} {fence : Fence}

theorem PreparedFor.marker (h : PreparedFor P mailboxAddress written fence)
    (hids : CanonicalIds fence) : Marker fence.id written fence.providerMessageIdHeader := by
  cases h with
  | step request mailbox routeVersion id haddress => exact haddress ▸ .step
  | humanReply input id domain now => exact .humanReply input.draftId (hids.2 _ rfl)

theorem PreparedFor.shape (h : PreparedFor P mailboxAddress written fence) :
    headerShape P fence.providerMessageIdHeader = true := by
  cases h with
  | step _ _ _ _ _ hshape => exact hshape
  | humanReply _ _ _ _ hshape => exact hshape

theorem PreparedFor.fenceId (h : PreparedFor P mailboxAddress written fence)
    (hids : CanonicalIds fence) :
    fenceIdOfMessageId fence.providerMessageIdHeader = some fence.id := by
  have hid := uuidShape_of_canonical hids.1
  have hmarker := h.marker hids
  exact fenceIdOfMessageId_of_marker hids.1 (hmarker.domainText hid h.shape)
    ((hmarker.trim_eq hid).symm ▸ hmarker)

/-- A header reads as a human reply's source exactly where the fence has a draft. -/
theorem PreparedFor.source (h : PreparedFor P mailboxAddress written fence)
    (hids : CanonicalIds fence) :
    humanReplySourceIdOfMessageId fence.providerMessageIdHeader = fence.draftId := by
  have hid := uuidShape_of_canonical hids.1
  have htrim := (h.marker hids).trim_eq hid
  have hdomain := (h.marker hids).domainText hid h.shape
  cases h with
  | step request mailbox routeVersion id haddress =>
    refine Option.eq_none_iff_forall_ne_some.2 fun source hsource => ?_
    obtain ⟨-, id', domain', -, -, heq⟩ := humanReplySourceIdOfMessageId_eq_some.1 hsource
    exact deterministicMessageId_ne_humanReply hid (htrim.symm.trans heq)
  | humanReply input id domain now =>
    exact humanReplySourceIdOfMessageId_eq_some.2
      ⟨hids.2 _ rfl, id, written, hids.1, hdomain, htrim⟩

/-- The mailbox's Sent folder leads back to the fence, and nothing else does. -/
structure RecognisedInSentFolder (P : Platform) (fence : Fence) (mailboxAddress : JsString) :
    Prop where
  recognised : fssFenceIdOfSentMessage P fence.providerMessageIdHeader mailboxAddress
    = some fence.id
  source : humanReplySourceIdOfMessageId fence.providerMessageIdHeader = fence.draftId
  /-- no header of a different fence, in whichever Sent folder -/
  otherFences : ∀ {address written : JsString} {other : Fence},
    PreparedFor P address written other → CanonicalIds other → other.id ≠ fence.id →
      ∀ folder, fssFenceIdOfSentMessage P other.providerMessageIdHeader folder ≠ some fence.id
  /-- no header of another domain than the folder's, and none that is not a marker -/
  otherDomains : ∀ header folder, fssFenceIdOfSentMessage P header folder = some fence.id →
    ∃ domain, P.toLowerCase domain = mailboxDomain P folder ∧ Marker fence.id domain (trim header)

theorem recognised_iff_domain_written (h : PreparedFor P mailboxAddress written fence)
    (hids : CanonicalIds fence) :
    RecognisedInSentFolder P fence mailboxAddress ↔
      P.toLowerCase written = mailboxDomain P mailboxAddress := by
  have hid := uuidShape_of_canonical hids.1
  have hmarker := h.marker hids
  have hdomain := hmarker.domainText hid h.shape
  have htrim := hmarker.trim_eq hid
  constructor
  · intro hrecognised
    obtain ⟨-, domain, hdomain', hmatch, hmarker'⟩ :=
      fssFenceIdOfSentMessage_eq_some.1 hrecognised.recognised
    rw [htrim] at hmarker'
    rwa [← hmarker.domain_eq hid hdomain, hmarker'.domain_eq hid hdomain']
  · intro hmatch
    refine ⟨fssFenceIdOfSentMessage_eq_some.2 ⟨hids.1, written, hdomain, hmatch, ?_⟩,
      h.source hids, fun hother hids' hne folder hsome => ?_, fun header folder hsome => ?_⟩
    · rwa [htrim]
    · obtain ⟨hcanonical, domain, hdomain', -, hmarker'⟩ :=
        fssFenceIdOfSentMessage_eq_some.1 hsome
      have hread := fenceIdOfMessageId_of_marker hcanonical hdomain' hmarker'
      rw [hother.fenceId hids'] at hread
      exact hne (Option.some.inj hread)
    · obtain ⟨-, domain, -, hmatch', hmarker'⟩ := fssFenceIdOfSentMessage_eq_some.1 hsome
      exact ⟨domain, hmatch', hmarker'⟩

/-- A step's header is always recognised, unless its mailbox's address ends in white space. -/
theorem stepFence_recognised {request : OutboundEmailRequest} {mailbox : MailboxRow}
    {routeVersion : Option Nat} {id : Uuid}
    (hshape : headerShape P
      (stepFence P request mailbox routeVersion id).providerMessageIdHeader = true)
    (hid : canonicalUuid id = true)
    (htrim : trim (afterLastAt mailbox.emailAddress) = afterLastAt mailbox.emailAddress) :
    RecognisedInSentFolder P (stepFence P request mailbox routeVersion id)
      mailbox.emailAddress := by
  refine (recognised_iff_domain_written (.step request mailbox routeVersion id rfl hshape)
    ⟨hid, fun _ h => ?_⟩).2 ?_
  · cases h
  · rw [mailboxDomain, htrim]

end Recognition

/-! ## A workspace whose primary domain is not its mailboxes' -/

def subdomainReply : HumanReplyInput :=
  { (default : HumanReplyInput) with draftId := js "0c8e5a52-7f0a-4d0e-9a3b-5d1f2e3c4b5a" }

/-- The reply's fence, its header written with the given primary domain. -/
def subdomainReplyFence (primaryDomain : String) : Fence :=
  humanReplyFence (asciiPlatform []) subdomainReply (js "9b2d6f10-3c4e-4b7a-8f21-6e5d4c3b2a19")
    (js primaryDomain) 0

theorem subdomainReplyFence_preparedFor :
    PreparedFor (asciiPlatform []) (js "rep@mail.callie.example") (js "callie.example")
        (subdomainReplyFence "callie.example") ∧
      CanonicalIds (subdomainReplyFence "callie.example") :=
  ⟨.humanReply subdomainReply _ _ 0 (by decide +kernel),
    by decide +kernel, fun _ h => Option.some.inj h ▸ by decide +kernel⟩

theorem humanReply_unrecognised :
    PreparedFor (asciiPlatform []) (js "rep@mail.callie.example") (js "callie.example")
        (subdomainReplyFence "callie.example") ∧
      CanonicalIds (subdomainReplyFence "callie.example") ∧
      ¬ RecognisedInSentFolder (asciiPlatform []) (subdomainReplyFence "callie.example")
        (js "rep@mail.callie.example") := by
  refine ⟨subdomainReplyFence_preparedFor.1, subdomainReplyFence_preparedFor.2, fun h => ?_⟩
  exact absurd h.recognised (by decide +kernel)

theorem recognised_iff_domain_written_subdomain :
    RecognisedInSentFolder (asciiPlatform []) (subdomainReplyFence "callie.example")
        (js "rep@mail.callie.example") ↔
      (asciiPlatform []).toLowerCase (js "callie.example")
        = mailboxDomain (asciiPlatform []) (js "rep@mail.callie.example") :=
  recognised_iff_domain_written subdomainReplyFence_preparedFor.1
    subdomainReplyFence_preparedFor.2

end FoundingSales.Outbound
