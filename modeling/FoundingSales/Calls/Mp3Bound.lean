import Mathlib.Data.Rat.Defs
import Mathlib.Algebra.Order.Ring.Rat
import Mathlib.Algebra.BigOperators.Group.List.Basic
import Mathlib.Tactic.Positivity
import Mathlib.Tactic.Linarith
import Mathlib.Tactic.NormNum

/-!
The duration bound of a transcription: audio cut at a frame boundary. Durations are exact.

Proved here:

* `walk_spec`: a walk takes whole frames, as many as fit, and stops where frames end;
* `walk_of_fits`, `walk_of_ends`: frames that fit are walked, and a walk that ends returns;
* `walk_mono`: a larger bound walks no less;
* `boundMp3_longest`: no whole frames that fit reach beyond what is returned;
* `bound_mp3_exact`: when audio is returned and what, that it is a fixed point, and that it grows.
-/

namespace FoundingSales.Calls.Mp3Bound

/-! ## Frames -/

def bitratesMpeg1 : List Nat := [0, 32, 40, 48, 56, 64, 80, 96, 112, 128, 160, 192, 224, 256, 320, 0]

def bitratesMpeg2 : List Nat := [0, 8, 16, 24, 32, 40, 48, 56, 64, 80, 96, 112, 128, 144, 160, 0]

def sampleRates : Nat → List Nat
  | 3 => [44100, 48000, 32000]
  | 2 => [22050, 24000, 16000]
  | 0 => [11025, 12000, 8000]
  | _ => []

/-- The bit rate of a version and an index, in thousands. -/
def kbpsOf (version bitrateIndex : Nat) : Nat :=
  (if version = 3 then bitratesMpeg1 else bitratesMpeg2)[bitrateIndex]?.getD 0

def samplesOf (version : Nat) : Nat := if version = 3 then 1152 else 576

structure Frame where
  length : Nat
  seconds : ℚ
  deriving DecidableEq

/-- `bytes[at] ?? 0` -/
def byteAt (bytes : List UInt8) (at_ : Nat) : Nat := (bytes[at_]?.map UInt8.toNat).getD 0

/-- The Layer III frame whose header starts at `at_`. -/
def frameAt (bytes : List UInt8) (at_ : Nat) : Option Frame :=
  if bytes.length < at_ + 4 then none
  else
    let b1 := byteAt bytes (at_ + 1)
    let b2 := byteAt bytes (at_ + 2)
    if byteAt bytes at_ ≠ 0xff || b1 &&& 0xe0 ≠ 0xe0 then none
    else
      let version := (b1 >>> 3) &&& 0x03
      let layer := (b1 >>> 1) &&& 0x03
      if version = 1 || layer ≠ 1 then none
      else
        let bitrateIndex := (b2 >>> 4) &&& 0x0f
        let rateIndex := (b2 >>> 2) &&& 0x03
        let padding := (b2 >>> 1) &&& 0x01
        let kbps := kbpsOf version bitrateIndex
        match (sampleRates version)[rateIndex]? with
        | none => none
        | some sampleRate =>
          if kbps = 0 then none
          else
            let samples := samplesOf version
            let length := samples / 8 * kbps * 1000 / sampleRate + padding
            if length < 4 then none else some ⟨length, (samples : ℚ) / sampleRate⟩

/-- The length of a leading ID3v2 tag, or 0. -/
def id3v2Length (bytes : List UInt8) : Nat :=
  if bytes.length < 10 || byteAt bytes 0 ≠ 0x49 || byteAt bytes 1 ≠ 0x44 || byteAt bytes 2 ≠ 0x33 then 0
  else
    let size := (byteAt bytes 6 &&& 0x7f) <<< 21 ||| (byteAt bytes 7 &&& 0x7f) <<< 14 |||
      (byteAt bytes 8 &&& 0x7f) <<< 7 ||| (byteAt bytes 9 &&& 0x7f)
    let footer := if byteAt bytes 5 &&& 0x10 ≠ 0 then 10 else 0
    10 + size + footer

theorem sampleRates_pos {version rateIndex sampleRate : Nat}
    (h : (sampleRates version)[rateIndex]? = some sampleRate) : 0 < sampleRate := by
  have hmem := List.mem_of_getElem? h
  unfold sampleRates at hmem
  split at hmem
  · simp only [List.mem_cons, List.not_mem_nil, or_false] at hmem
    omega
  · simp only [List.mem_cons, List.not_mem_nil, or_false] at hmem
    omega
  · simp only [List.mem_cons, List.not_mem_nil, or_false] at hmem
    omega
  · cases hmem

/-- A frame has a header, a length and a duration. -/
theorem frameAt_some {bytes : List UInt8} {at_ : Nat} {frame : Frame} (h : frameAt bytes at_ = some frame) :
    at_ + 4 ≤ bytes.length ∧ byteAt bytes at_ = 0xff ∧ 4 ≤ frame.length ∧ 0 < frame.seconds := by
  unfold frameAt at h
  dsimp only at h
  split at h
  · cases h
  · next hlength =>
    split at h
    · cases h
    · next hsync =>
      split at h
      · cases h
      · split at h
        · cases h
        · next sampleRate hrate =>
          split at h
          · cases h
          · split at h
            · cases h
            · next hshort =>
              cases h
              simp only [Bool.or_eq_true, decide_eq_true_eq, not_or, not_not] at hsync
              have hpos : (0 : ℚ) < sampleRate := by
                exact_mod_cast sampleRates_pos hrate
              refine ⟨by omega, hsync.1, Nat.not_lt.1 hshort, ?_⟩
              have hsamples : (0 : ℚ) < samplesOf ((byteAt bytes (at_ + 1) >>> 3) &&& 0x03) := by
                unfold samplesOf
                split <;> norm_num
              exact div_pos hsamples hpos

/-! ## The bound -/

/-- Where the walk has come to, and whether it stopped at a frame that does not fit. -/
structure Walked where
  at_ : Nat
  seconds : ℚ
  frames : Nat
  trimmed : Bool
  deriving DecidableEq

/-- A trailing ID3v1 tag. -/
def trailingTag (bytes : List UInt8) (at_ : Nat) : Bool :=
  bytes.length - at_ = 128 && byteAt bytes at_ = 0x54 && byteAt bytes (at_ + 1) = 0x41 &&
    byteAt bytes (at_ + 2) = 0x47

/-- The loop over the frames; none for what is not readable. -/
def walk (bytes : List UInt8) (maxSeconds : ℚ) (at_ : Nat) (seconds : ℚ) (frames : Nat) :
    Option Walked :=
  if at_ < bytes.length then
    if trailingTag bytes at_ then some ⟨at_, seconds, frames, false⟩
    else
      match h : frameAt bytes at_ with
      | none => none
      | some frame =>
        if bytes.length < at_ + frame.length then none
        else if maxSeconds < seconds + frame.seconds then some ⟨at_, seconds, frames, true⟩
        else walk bytes maxSeconds (at_ + frame.length) (seconds + frame.seconds) (frames + 1)
  else some ⟨at_, seconds, frames, false⟩
  termination_by bytes.length - at_
  decreasing_by
    have hlength := (frameAt_some h).2.2.1
    omega

structure BoundedAudio where
  bytes : List UInt8
  seconds : ℚ
  trimmed : Bool
  deriving DecidableEq

/-- The audio cut to at most `maxSeconds`; none when it is not readable or holds no frame. -/
def boundMp3 (audio : List UInt8) (maxSeconds : ℚ) : Option BoundedAudio :=
  let at_ := id3v2Length audio
  if audio.length < at_ then none
  else
    match walk audio maxSeconds at_ 0 0 with
    | none => none
    | some walked =>
      if walked.frames = 0 then none
      else some ⟨audio.take walked.at_, walked.seconds, walked.trimmed⟩

/-! ## Whole frames -/

/-- Whole frames, one after another, between two places of the buffer. -/
def FramesIn (bytes : List UInt8) : Nat → List Frame → Nat → Prop
  | start, [], stop => start = stop
  | start, frame :: frames, stop => frameAt bytes start = some frame ∧
      start + frame.length ≤ bytes.length ∧ FramesIn bytes (start + frame.length) frames stop

def duration (frames : List Frame) : ℚ := (frames.map Frame.seconds).sum

/-- A whole frame stands here that exceeds the bound. -/
def Exceeds (bytes : List UInt8) (maxSeconds : ℚ) (at_ : Nat) (seconds : ℚ) : Prop :=
  ∃ frame, frameAt bytes at_ = some frame ∧ at_ + frame.length ≤ bytes.length ∧
    maxSeconds < seconds + frame.seconds

/-- Where a walk ends: at the end, at a trailing tag, or at a whole frame that exceeds the bound. -/
def Ends (bytes : List UInt8) (maxSeconds : ℚ) (at_ : Nat) (seconds : ℚ) : Prop :=
  bytes.length ≤ at_ ∨ trailingTag bytes at_ = true ∨ Exceeds bytes maxSeconds at_ seconds

variable {bytes : List UInt8} {maxSeconds maxSeconds' seconds : ℚ} {at_ stop frames : Nat}
  {walked walked' : Walked} {list : List Frame}

theorem FramesIn.le (h : FramesIn bytes at_ list stop) : at_ ≤ stop := by
  induction list generalizing at_ with
  | nil => exact Nat.le_of_eq h
  | cons frame list ih => exact Nat.le_trans (Nat.le_add_right _ _) (ih h.2.2)

theorem FramesIn.le_length (h : FramesIn bytes at_ list stop) (hstart : at_ ≤ bytes.length) :
    stop ≤ bytes.length := by
  induction list generalizing at_ with
  | nil => exact h ▸ hstart
  | cons frame list ih => exact ih h.2.2 h.2.1

theorem duration_nonneg (h : FramesIn bytes at_ list stop) : 0 ≤ duration list := by
  induction list generalizing at_ with
  | nil => exact le_refl 0
  | cons frame list ih =>
    have hframe := (frameAt_some h.1).2.2.2
    have hrest := ih h.2.2
    unfold duration at hrest ⊢
    rw [List.map_cons, List.sum_cons]
    exact add_nonneg hframe.le hrest

/-- A trailing tag is no frame. -/
theorem not_exceeds_of_tag (h : trailingTag bytes at_ = true) : ¬ Exceeds bytes maxSeconds at_ seconds := by
  rintro ⟨frame, hframe, -⟩
  unfold trailingTag at h
  simp only [Bool.and_eq_true, decide_eq_true_eq] at h
  have hsync := (frameAt_some hframe).2.1
  rw [h.1.1.2] at hsync
  cases hsync

/-- A walk takes whole frames, as many as fit. -/
theorem walk_spec (h : walk bytes maxSeconds at_ seconds frames = some walked) :
    ∃ list, FramesIn bytes at_ list walked.at_ ∧ walked.seconds = seconds + duration list ∧
      walked.frames = frames + list.length ∧ (list ≠ [] → walked.seconds ≤ maxSeconds) ∧
      Ends bytes maxSeconds walked.at_ walked.seconds ∧
      (walked.trimmed = true ↔ Exceeds bytes maxSeconds walked.at_ walked.seconds) := by
  fun_induction walk bytes maxSeconds at_ seconds frames with
  | case1 at_ seconds frames hin htag =>
    cases h
    exact ⟨[], rfl, by simp [duration], rfl, fun hne => absurd rfl hne, .inr (.inl htag),
      iff_of_false Bool.false_ne_true (not_exceeds_of_tag htag)⟩
  | case2 => cases h
  | case3 => cases h
  | case4 at_ seconds frames hin htag frame hframe hwhole hover =>
    cases h
    have hexceeds : Exceeds bytes maxSeconds at_ seconds :=
      ⟨frame, hframe, Nat.not_lt.1 hwhole, hover⟩
    exact ⟨[], rfl, by simp [duration], rfl, fun hne => absurd rfl hne, .inr (.inr hexceeds),
      iff_of_true rfl hexceeds⟩
  | case5 at_ seconds frames hin htag frame hframe hwhole hover ih =>
    obtain ⟨list, hlist, hseconds, hframes, hfits, hends, htrimmed⟩ := ih h
    refine ⟨frame :: list, ⟨hframe, Nat.not_lt.1 hwhole, hlist⟩, ?_, ?_, ?_, hends, htrimmed⟩
    · rw [hseconds]
      unfold duration
      rw [List.map_cons, List.sum_cons, add_assoc]
    · rw [hframes, List.length_cons]
      omega
    · intro _
      cases list with
      | nil =>
        rw [hseconds]
        simpa [duration] using not_lt.1 hover
      | cons frame' list => exact hfits (by simp)
  | case6 at_ seconds frames hout =>
    cases h
    refine ⟨[], rfl, by simp [duration], rfl, fun hne => absurd rfl hne, .inl (Nat.not_lt.1 hout),
      iff_of_false Bool.false_ne_true ?_⟩
    rintro ⟨frame, hframe, -⟩
    have hlength := (frameAt_some hframe).1
    change at_ + 4 ≤ bytes.length at hlength
    omega

/-- Frames that fit are walked, whatever comes after them. -/
theorem walk_of_fits (h : FramesIn bytes at_ list stop) (hfits : seconds + duration list ≤ maxSeconds) :
    walk bytes maxSeconds at_ seconds frames =
      walk bytes maxSeconds stop (seconds + duration list) (frames + list.length) := by
  induction list generalizing at_ seconds frames with
  | nil =>
    obtain rfl : at_ = stop := h
    simp [duration]
  | cons frame list ih =>
    obtain ⟨hframe, hwhole, hrest⟩ := h
    obtain ⟨hheader, hsync, -, -⟩ := frameAt_some hframe
    have hnonneg := duration_nonneg hrest
    have hsum : seconds + duration (frame :: list) = seconds + frame.seconds + duration list := by
      unfold duration
      rw [List.map_cons, List.sum_cons, add_assoc]
    have htag : trailingTag bytes at_ = false := by
      unfold trailingTag
      simp [hsync]
    have hover : ¬ maxSeconds < seconds + frame.seconds := by
      rw [hsum] at hfits
      linarith
    rw [walk, if_pos (by omega), htag, if_neg Bool.false_ne_true]
    split
    · next hnone =>
      rw [hframe] at hnone
      cases hnone
    · next frame' hframe' =>
      rw [hframe, Option.some.injEq] at hframe'
      subst hframe'
      rw [if_neg (Nat.not_lt.2 hwhole), if_neg hover, ih hrest (hsum ▸ hfits), hsum, List.length_cons]
      congr 1
      omega

/-- A walk returns where it ends. -/
theorem walk_of_ends (h : Ends bytes maxSeconds at_ seconds) (frames : Nat) :
    ∃ trimmed, walk bytes maxSeconds at_ seconds frames = some ⟨at_, seconds, frames, trimmed⟩ := by
  by_cases hin : at_ < bytes.length
  · by_cases htag : trailingTag bytes at_ = true
    · exact ⟨false, by rw [walk, if_pos hin, if_pos htag]⟩
    · obtain ⟨frame, hframe, hwhole, hover⟩ := (h.resolve_left (Nat.not_le.2 hin)).resolve_left htag
      refine ⟨true, ?_⟩
      rw [walk, if_pos hin, if_neg htag]
      split
      · next hnone =>
        rw [hframe] at hnone
        cases hnone
      · next frame' hframe' =>
        rw [hframe, Option.some.injEq] at hframe'
        subst hframe'
        rw [if_neg (Nat.not_lt.2 hwhole), if_pos hover]
  · exact ⟨false, by rw [walk, if_neg hin]⟩

/-- A larger bound walks no less. -/
theorem walk_mono (hmax : maxSeconds ≤ maxSeconds')
    (h : walk bytes maxSeconds at_ seconds frames = some walked)
    (h' : walk bytes maxSeconds' at_ seconds frames = some walked') : walked.at_ ≤ walked'.at_ := by
  fun_induction walk bytes maxSeconds at_ seconds frames with
  | case1 at_ seconds frames hin htag =>
    cases h
    obtain ⟨list, hlist, -⟩ := walk_spec h'
    exact hlist.le
  | case2 => cases h
  | case3 => cases h
  | case4 at_ seconds frames hin htag frame hframe hwhole hover =>
    cases h
    obtain ⟨list, hlist, -⟩ := walk_spec h'
    exact hlist.le
  | case5 at_ seconds frames hin htag frame hframe hwhole hover ih =>
    have hover' : ¬ maxSeconds' < seconds + frame.seconds := fun hless => hover (hmax.trans_lt hless)
    unfold walk at h'
    rw [if_pos hin, if_neg htag] at h'
    split at h'
    · cases h'
    · next frame' hframe' =>
      rw [hframe, Option.some.injEq] at hframe'
      subst hframe'
      rw [if_neg hwhole, if_neg hover'] at h'
      exact ih h h'
  | case6 at_ seconds frames hout =>
    cases h
    obtain ⟨list, hlist, -⟩ := walk_spec h'
    exact hlist.le

/-! ## A prefix -/

theorem byteAt_take {n i : Nat} (h : i < n) : byteAt (bytes.take n) i = byteAt bytes i := by
  unfold byteAt
  rw [List.getElem?_take, if_pos h]

/-- A frame is read from its header alone. -/
theorem frameAt_take {n : Nat} (h : at_ + 4 ≤ n) (hn : n ≤ bytes.length) :
    frameAt (bytes.take n) at_ = frameAt bytes at_ := by
  unfold frameAt
  rw [byteAt_take (by omega), byteAt_take (by omega), byteAt_take (by omega), List.length_take,
    Nat.min_eq_left hn, if_neg (Nat.not_lt.2 h), if_neg (Nat.not_lt.2 (h.trans hn))]

theorem FramesIn.take (h : FramesIn bytes at_ list stop) (hstop : stop ≤ bytes.length) :
    FramesIn (bytes.take stop) at_ list stop := by
  induction list generalizing at_ with
  | nil => exact h
  | cons frame list ih =>
    obtain ⟨hframe, hwhole, hrest⟩ := h
    have hlength := (frameAt_some hframe).2.2.1
    have hle := hrest.le
    refine ⟨?_, ?_, ih hrest⟩
    · rw [frameAt_take (by omega) hstop]
      exact hframe
    · rw [List.length_take]
      omega

/-- A tag is read from its header alone, which a prefix that has the tag has. -/
theorem id3v2Length_take {n : Nat} (h : id3v2Length bytes ≤ n) (hn : n ≤ bytes.length) :
    id3v2Length (bytes.take n) = id3v2Length bytes := by
  have hlength : (bytes.take n).length = n := by
    rw [List.length_take]
    omega
  by_cases hshort : n < 10
  · have hzero : id3v2Length (bytes.take n) = 0 := by
      unfold id3v2Length
      rw [hlength]
      simp [hshort]
    rw [hzero]
    -- A tag has ten bytes at least.
    by_contra hne
    unfold id3v2Length at h hne
    split at hne
    · exact hne rfl
    · next htag =>
      rw [if_neg htag] at h
      dsimp only at h
      omega
  · unfold id3v2Length
    rw [hlength]
    simp only [byteAt_take (show 0 < n by omega), byteAt_take (show 1 < n by omega),
      byteAt_take (show 2 < n by omega), byteAt_take (show 5 < n by omega),
      byteAt_take (show 6 < n by omega), byteAt_take (show 7 < n by omega),
      byteAt_take (show 8 < n by omega), byteAt_take (show 9 < n by omega), hshort,
      show ¬ bytes.length < 10 by omega]

/-! ## The bound is exact -/

theorem boundMp3_some {audio : List UInt8} {bounded : BoundedAudio}
    (h : boundMp3 audio maxSeconds = some bounded) : ∃ walked, id3v2Length audio ≤ audio.length ∧
      walk audio maxSeconds (id3v2Length audio) 0 0 = some walked ∧ walked.frames ≠ 0 ∧
      bounded = ⟨audio.take walked.at_, walked.seconds, walked.trimmed⟩ := by
  unfold boundMp3 at h
  dsimp only at h
  split at h
  · cases h
  · next hlength =>
    split at h
    · cases h
    · next walked hwalked =>
      split at h
      · cases h
      · next hframes => exact ⟨walked, Nat.not_lt.1 hlength, hwalked, hframes, (Option.some.inj h).symm⟩

/-- Audio the bound can return: whole frames after the tag, one at least, that fit and end. -/
def Readable (audio : List UInt8) (maxSeconds : ℚ) : Prop :=
  ∃ list ≠ [], ∃ stop, FramesIn audio (id3v2Length audio) list stop ∧ duration list ≤ maxSeconds ∧
    Ends audio maxSeconds stop (duration list)

/-- What a bounded buffer is: the tag and one or more whole frames, as many as fit. -/
structure Bounded (audio : List UInt8) (maxSeconds : ℚ) (bounded : BoundedAudio) : Prop where
  isPrefix : bounded.bytes <+: audio
  tag : id3v2Length bounded.bytes = id3v2Length audio
  frames : ∃ list ≠ [], FramesIn bounded.bytes (id3v2Length bounded.bytes) list bounded.bytes.length ∧
    duration list = bounded.seconds
  fits : bounded.seconds ≤ maxSeconds
  longest : ∀ list stop, FramesIn audio (id3v2Length audio) list stop → duration list ≤ maxSeconds →
    stop ≤ bounded.bytes.length
  trimmed : bounded.trimmed = true ↔ Exceeds audio maxSeconds bounded.bytes.length bounded.seconds

/-- No whole frames that fit reach beyond where the walk stops. -/
theorem boundMp3_longest {audio : List UInt8}
    (h : walk audio maxSeconds (id3v2Length audio) 0 0 = some walked)
    (hlist : FramesIn audio (id3v2Length audio) list stop) (hfits : duration list ≤ maxSeconds) :
    stop ≤ walked.at_ := by
  rw [walk_of_fits hlist (by rwa [zero_add])] at h
  obtain ⟨more, hmore, -⟩ := walk_spec h
  exact hmore.le

theorem boundMp3_bounded {audio : List UInt8} {bounded : BoundedAudio}
    (h : boundMp3 audio maxSeconds = some bounded) : Bounded audio maxSeconds bounded := by
  obtain ⟨walked, hlength, hwalked, hframes, rfl⟩ := boundMp3_some h
  obtain ⟨list, hlist, hseconds, hcount, hfits, -, htrimmed⟩ := walk_spec hwalked
  have hstop : walked.at_ ≤ audio.length := hlist.le_length hlength
  have htake : (audio.take walked.at_).length = walked.at_ := by
    rw [List.length_take]
    omega
  have htag : id3v2Length (audio.take walked.at_) = id3v2Length audio := id3v2Length_take hlist.le hstop
  have hne : list ≠ [] := by
    rintro rfl
    exact hframes hcount
  rw [zero_add] at hseconds
  refine ⟨List.take_prefix _ _, htag, ⟨list, hne, ?_, hseconds.symm⟩, hfits hne, ?_, ?_⟩
  · show FramesIn (audio.take walked.at_) (id3v2Length (audio.take walked.at_)) list _
    rw [htag, htake]
    exact hlist.take hstop
  · intro list' stop' hlist' hfits'
    show stop' ≤ (audio.take walked.at_).length
    rw [htake]
    exact boundMp3_longest hwalked hlist' hfits'
  · show walked.trimmed = true ↔ Exceeds audio maxSeconds (audio.take walked.at_).length walked.seconds
    rw [htake]
    exact htrimmed

theorem FramesIn.start_le (h : FramesIn bytes at_ list stop) (hne : list ≠ []) :
    at_ ≤ bytes.length := by
  cases list with
  | nil => exact absurd rfl hne
  | cons frame list => exact (Nat.le_add_right _ _).trans h.2.1

/-- Frames that fit and end are returned. -/
theorem boundMp3_of_frames {audio : List UInt8}
    (h : FramesIn audio (id3v2Length audio) list stop) (hne : list ≠ [])
    (hfits : duration list ≤ maxSeconds) (hends : Ends audio maxSeconds stop (duration list)) :
    ∃ trimmed, boundMp3 audio maxSeconds = some ⟨audio.take stop, duration list, trimmed⟩ := by
  have hcount : list.length ≠ 0 := fun hzero => hne (List.length_eq_zero_iff.1 hzero)
  have hwalk := @walk_of_fits audio maxSeconds 0 (id3v2Length audio) stop 0 list h
    (by rwa [zero_add])
  obtain ⟨trimmed, hstop⟩ := walk_of_ends hends list.length
  rw [zero_add, Nat.zero_add, hstop] at hwalk
  refine ⟨trimmed, ?_⟩
  unfold boundMp3
  dsimp only
  rw [if_neg (Nat.not_lt.2 (h.start_le hne)), hwalk]
  exact if_neg hcount

theorem boundMp3_isSome_iff (audio : List UInt8) (maxSeconds : ℚ) :
    (boundMp3 audio maxSeconds).isSome = true ↔ Readable audio maxSeconds := by
  constructor
  · intro h
    obtain ⟨bounded, hbounded⟩ := Option.isSome_iff_exists.1 h
    obtain ⟨walked, -, hwalked, hframes, -⟩ := boundMp3_some hbounded
    obtain ⟨list, hlist, hseconds, hcount, hfits, hends, -⟩ := walk_spec hwalked
    have hne : list ≠ [] := by
      rintro rfl
      exact hframes hcount
    rw [zero_add] at hseconds
    rw [hseconds] at hends
    exact ⟨list, hne, walked.at_, hlist, hseconds ▸ hfits hne, hends⟩
  · rintro ⟨list, hne, stop, hlist, hfits, hends⟩
    obtain ⟨trimmed, hbounded⟩ := boundMp3_of_frames hlist hne hfits hends
    rw [hbounded]
    rfl

/-- Bounding again changes nothing, and nothing is left to trim. -/
theorem boundMp3_again {audio : List UInt8} {bounded : BoundedAudio}
    (h : Bounded audio maxSeconds bounded) :
    boundMp3 bounded.bytes maxSeconds = some ⟨bounded.bytes, bounded.seconds, false⟩ := by
  obtain ⟨list, hne, hlist, hseconds⟩ := h.frames
  have hfits : duration list ≤ maxSeconds := hseconds ▸ h.fits
  obtain ⟨trimmed, hagain⟩ := boundMp3_of_frames hlist hne hfits (.inl le_rfl)
  rw [List.take_length, hseconds] at hagain
  have htrimmed : trimmed = false := by
    rw [← Bool.not_eq_true]
    intro htrue
    -- No frame begins at the end of a buffer.
    obtain ⟨frame, hframe, -⟩ := (boundMp3_bounded hagain).trimmed.1 htrue
    have hheader := (frameAt_some hframe).1
    change bounded.bytes.length + 4 ≤ bounded.bytes.length at hheader
    omega
  rw [hagain, htrimmed]

/-- For every buffer and bound: audio is returned exactly when whole frames after the tag, one or
more, fit and end; what is returned is a prefix of the tag and one or more whole frames, whose
duration is the seconds and fits the bound, and no longer one fits; it is trimmed exactly when a
whole frame follows that exceeds the bound; bounding it again changes nothing; and a larger bound
returns no less. -/
theorem bound_mp3_exact (audio : List UInt8) (maxSeconds : ℚ) :
    ((boundMp3 audio maxSeconds).isSome = true ↔ Readable audio maxSeconds) ∧
    (∀ bounded, boundMp3 audio maxSeconds = some bounded → Bounded audio maxSeconds bounded) ∧
    (∀ bounded, boundMp3 audio maxSeconds = some bounded →
      boundMp3 bounded.bytes maxSeconds = some ⟨bounded.bytes, bounded.seconds, false⟩) ∧
    ∀ maxSeconds' bounded bounded', maxSeconds ≤ maxSeconds' →
      boundMp3 audio maxSeconds = some bounded → boundMp3 audio maxSeconds' = some bounded' →
      bounded.bytes <+: bounded'.bytes := by
  refine ⟨boundMp3_isSome_iff audio maxSeconds, fun bounded => boundMp3_bounded, ?_, ?_⟩
  · intro bounded h
    exact boundMp3_again (boundMp3_bounded h)
  · intro maxSeconds' bounded bounded' hmax h h'
    obtain ⟨walked, -, hwalked, -, rfl⟩ := boundMp3_some h
    obtain ⟨walked', -, hwalked', -, rfl⟩ := boundMp3_some h'
    exact List.take_prefix_take_left (walk_mono hmax hwalked hwalked')

/-- One frame of MPEG-2 at eight thousand bits a second. -/
def shortFrame : List UInt8 := [0xff, 0xf3, 0x14, 0] ++ List.replicate 20 0

/-- A tag of four bytes and three short frames. -/
def taggedRecording : List UInt8 :=
  [0x49, 0x44, 0x33, 4, 0, 0, 0, 0, 0, 4, 0, 0, 0, 0] ++ shortFrame ++ shortFrame ++ shortFrame

/-- A bound of a twentieth of a second, in which two of the frames fit. -/
theorem bound_mp3_exact_trimmed : ∃ bounded,
    boundMp3 taggedRecording (1 / 20) = some bounded ∧ Bounded taggedRecording (1 / 20) bounded ∧
      bounded.bytes.length = 62 ∧ bounded.seconds = 6 / 125 ∧ bounded.trimmed = true := by
  obtain ⟨-, hbounded, -, -⟩ := bound_mp3_exact taggedRecording (1 / 20)
  have hframes : FramesIn taggedRecording (id3v2Length taggedRecording)
      [⟨24, 3 / 125⟩, ⟨24, 3 / 125⟩] 62 :=
    ⟨by decide +kernel, by decide, by decide +kernel, by decide, rfl⟩
  have hduration : duration [⟨24, 3 / 125⟩, ⟨24, 3 / 125⟩] = 6 / 125 := by norm_num [duration]
  have hexceeds : Exceeds taggedRecording (1 / 20) 62 (6 / 125) :=
    ⟨⟨24, 3 / 125⟩, by decide +kernel, by decide, by norm_num⟩
  obtain ⟨trimmed, heq⟩ := boundMp3_of_frames hframes (by simp) (by rw [hduration]; norm_num)
    (.inr (.inr (hduration ▸ hexceeds)))
  rw [hduration] at heq
  have h := hbounded _ heq
  exact ⟨_, heq, h, rfl, rfl, h.trimmed.2 hexceeds⟩

end FoundingSales.Calls.Mp3Bound
