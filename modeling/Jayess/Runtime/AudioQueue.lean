import Jayess.Number.Word

/-!
# The audio queue
-/

namespace Jayess.Runtime

structure PCMAudio where
  sampleRate : Int64
  channels : Int64
  bitsPerSample : Int64
  samples : List Int16
deriving DecidableEq

/-- `runtime.AudioQueue`; a slice holds no more samples than an int can count. -/
structure AudioQueue where
  sampleRate : Int64
  channels : Int64
  bitsPerSample : Int64
  samples : List Int16
  cursor : Int64
  fits : samples.length < 2 ^ 63

def audioNewQueue (sampleRate channels : Int64) : AudioQueue where
  sampleRate := sampleRate
  channels := if channels ≤ 0 then 1 else channels
  bitsPerSample := 16
  samples := []
  cursor := 0
  fits := by decide

/-- `AudioQueuePush`; nothing where the grown slice cannot be made. -/
def audioQueuePush (queue : AudioQueue) (audio : PCMAudio) : Option AudioQueue :=
  if fits : (queue.samples ++ audio.samples).length < 2 ^ 63 then
    some {
      sampleRate := if queue.sampleRate = 0 then audio.sampleRate else queue.sampleRate
      channels := if queue.channels = 0 then audio.channels else queue.channels
      bitsPerSample := queue.bitsPerSample
      samples := queue.samples ++ audio.samples
      cursor := queue.cursor
      fits := fits }
  else none

def audioQueueSeek (queue : AudioQueue) (frameOffset : Int64) : AudioQueue :=
  let frameOffset := if frameOffset < 0 then 0 else frameOffset
  let sampleOffset := frameOffset * queue.channels
  { queue with
    cursor :=
      if Word.ofLength queue.samples.length < sampleOffset then Word.ofLength queue.samples.length
      else sampleOffset }

def sliceBetween {α : Type*} (list : List α) (low high : Int64) : Option (List α) :=
  if 0 ≤ low.toInt ∧ low.toInt ≤ high.toInt ∧ high.toInt ≤ list.length then
    some ((list.drop low.toInt.toNat).take (high.toInt - low.toInt).toNat)
  else none

/-- `AudioQueueDrain`; nothing where the slice expression is out of range. -/
def audioQueueDrain (queue : AudioQueue) (frameCount : Int64) : Option (AudioQueue × PCMAudio) :=
  if frameCount ≤ 0 then some (queue, ⟨0, 0, 16, []⟩)
  else
    let sampleCount := frameCount * queue.channels
    let limit := queue.cursor + sampleCount
    let limit :=
      if Word.ofLength queue.samples.length < limit then Word.ofLength queue.samples.length else limit
    match sliceBetween queue.samples queue.cursor limit with
    | none => none
    | some drained =>
        some ({ queue with cursor := limit }, ⟨queue.sampleRate, queue.channels, 16, drained⟩)

inductive AudioCall where
  | push (audio : PCMAudio)
  | seek (frameOffset : Int64)
  | drain (frameCount : Int64)

def AudioCall.apply (queue : AudioQueue) : AudioCall → Option (AudioQueue × List Int16)
  | .push audio => (audioQueuePush queue audio).map fun queue => (queue, [])
  | .seek frameOffset => some (audioQueueSeek queue frameOffset, [])
  | .drain frameCount => (audioQueueDrain queue frameCount).map fun result =>
      (result.1, result.2.samples)

namespace AudioQueue

def InRange (queue : AudioQueue) : Prop :=
  0 ≤ queue.cursor.toInt ∧ queue.cursor.toInt ≤ queue.samples.length

/-- How many samples a drain of that many frames has to return. -/
def due (queue : AudioQueue) (frameCount : Int64) : Nat :=
  min (frameCount.toInt * queue.channels.toInt).toNat
    (queue.samples.length - queue.cursor.toInt.toNat)

/-- The call completes with the cursor in range, and a drain returns the next samples, as many as are
due, and moves the cursor past them. -/
def Right (queue : AudioQueue) (call : AudioCall) (next : AudioQueue) (returned : List Int16) :
    Prop :=
  next.InRange ∧ ∀ frameCount, call = .drain frameCount →
    returned = (queue.samples.drop queue.cursor.toInt.toNat).take (queue.due frameCount) ∧
      next.cursor.toInt = queue.cursor.toInt + queue.due frameCount

/-- Each call of a sequence does what it is to do. -/
def AllRight (queue : AudioQueue) : List AudioCall → Prop
  | [] => True
  | call :: rest => ∃ next returned, call.apply queue = some (next, returned) ∧
      queue.Right call next returned ∧ next.AllRight rest

/-- The arithmetic of the call does not wrap to a smaller number that matters: the product of a seek does
not turn negative, and the end of a drain is exact or still not below the number of samples. -/
def Exact (queue : AudioQueue) : AudioCall → Prop
  | .push audio => queue.samples.length + audio.samples.length < 2 ^ 63
  | .seek frameOffset => frameOffset < 0 ∨ 0 ≤ frameOffset * queue.channels
  | .drain frameCount => frameCount ≤ 0 ∨
      queue.cursor.toInt + frameCount.toInt * queue.channels.toInt < 2 ^ 63 ∨
      queue.samples.length ≤ (queue.cursor + frameCount * queue.channels).toInt

/-- The arithmetic of each call of a sequence, in the state in which it is made. -/
def AllExact (queue : AudioQueue) : List AudioCall → Prop
  | [] => True
  | call :: rest => queue.Exact call ∧
      ∀ next returned, call.apply queue = some (next, returned) → next.AllExact rest

section Step

variable {queue next : AudioQueue} {call : AudioCall} {returned : List Int16}

theorem toInt_length (queue : AudioQueue) :
    (Word.ofLength queue.samples.length).toInt = queue.samples.length :=
  Word.toInt_ofLength queue.fits

theorem toInt_clamp (queue : AudioQueue) (word : Int64) :
    (if Word.ofLength queue.samples.length < word then Word.ofLength queue.samples.length
      else word).toInt = min word.toInt queue.samples.length := by
  have hlength := queue.toInt_length
  split
  · rename_i hlt
    rw [Int64.lt_iff_toInt_lt] at hlt
    omega
  · rename_i hle
    rw [Int64.lt_iff_toInt_lt] at hle
    omega

theorem channels_apply (hchannels : 0 < queue.channels.toInt)
    (happly : call.apply queue = some (next, returned)) : next.channels = queue.channels := by
  cases call with
  | push audio =>
      have hne : queue.channels ≠ 0 := by
        intro heq
        rw [heq] at hchannels
        exact absurd hchannels (by decide)
      simp only [AudioCall.apply, audioQueuePush, hne, if_false] at happly
      split at happly
      · cases happly
        rfl
      · cases happly
  | seek frameOffset =>
      cases happly
      rfl
  | drain frameCount =>
      simp only [AudioCall.apply, audioQueueDrain] at happly
      split at happly
      · cases happly
        rfl
      · split at happly
        · cases happly
        · cases happly
          rfl

theorem right_push_iff (hrange : queue.InRange) (audio : PCMAudio) :
    (∃ next returned, (AudioCall.push audio).apply queue = some (next, returned) ∧
      queue.Right (.push audio) next returned) ↔ queue.Exact (.push audio) := by
  rw [Exact, ← List.length_append]
  constructor
  · rintro ⟨next, returned, happly, _⟩
    by_contra hlong
    rw [AudioCall.apply, audioQueuePush, dif_neg hlong] at happly
    cases happly
  · intro hfits
    rw [AudioCall.apply, audioQueuePush, dif_pos hfits]
    refine ⟨_, _, rfl, ⟨hrange.1, ?_⟩, nofun⟩
    have hbound := hrange.2
    simp only [List.length_append, Nat.cast_add]
    omega

theorem right_seek_iff (frameOffset : Int64) :
    (∃ next returned, (AudioCall.seek frameOffset).apply queue = some (next, returned) ∧
      queue.Right (.seek frameOffset) next returned) ↔ queue.Exact (.seek frameOffset) := by
  have hcursor : (audioQueueSeek queue frameOffset).cursor.toInt =
      min ((if frameOffset < 0 then 0 else frameOffset) * queue.channels).toInt
        queue.samples.length := queue.toInt_clamp _
  have hlength : (audioQueueSeek queue frameOffset).samples = queue.samples := rfl
  have hright : (∃ next returned, (AudioCall.seek frameOffset).apply queue = some (next, returned) ∧
      queue.Right (.seek frameOffset) next returned) ↔
        0 ≤ ((if frameOffset < 0 then 0 else frameOffset) * queue.channels).toInt := by
    constructor
    · rintro ⟨next, returned, happly, hrange, _⟩
      cases happly
      have hlow := hrange.1
      rw [hcursor] at hlow
      omega
    · intro hproduct
      refine ⟨_, _, rfl, ⟨?_, ?_⟩, nofun⟩
      · rw [hcursor]
        omega
      · rw [hcursor, hlength]
        omega
  rw [hright, Exact, Int64.le_iff_toInt_le]
  by_cases hnegative : frameOffset < 0
  · simp [hnegative]
  · simp [hnegative]

theorem sliceBetween_cursor {limit : Int64} (hrange : queue.InRange)
    (hlimit : limit.toInt ≤ queue.samples.length) :
    sliceBetween queue.samples queue.cursor limit =
      if queue.cursor.toInt ≤ limit.toInt then
        some ((queue.samples.drop queue.cursor.toInt.toNat).take
          (limit.toInt - queue.cursor.toInt).toNat)
      else none := by
  unfold sliceBetween
  simp [hrange.1, hlimit]

theorem right_drain_iff (hrange : queue.InRange) (hchannels : 0 < queue.channels.toInt)
    (frameCount : Int64) :
    (∃ next returned, (AudioCall.drain frameCount).apply queue = some (next, returned) ∧
      queue.Right (.drain frameCount) next returned) ↔ queue.Exact (.drain frameCount) := by
  obtain ⟨hlow, hhigh⟩ := hrange
  by_cases hnone : frameCount ≤ 0
  · have hcount : frameCount.toInt ≤ 0 := Int64.le_iff_toInt_le.mp hnone
    have hdue : queue.due frameCount = 0 := by
      have hproduct : frameCount.toInt * queue.channels.toInt ≤ 0 :=
        Int.mul_nonpos_of_nonpos_of_nonneg hcount hchannels.le
      unfold due
      omega
    refine iff_of_true ?_ (.inl hnone)
    rw [AudioCall.apply, audioQueueDrain, if_pos hnone]
    refine ⟨queue, [], rfl, ⟨hlow, hhigh⟩, ?_⟩
    rintro _ ⟨⟩
    simp [hdue]
  have hcount : 0 < frameCount.toInt := by
    rw [Int64.le_iff_toInt_le] at hnone
    exact Int.not_le.mp hnone
  set product := frameCount.toInt * queue.channels.toInt with hproduct
  have hpositive : 0 < product := Int.mul_pos hcount hchannels
  have hsum : (queue.cursor + frameCount * queue.channels).toInt =
      (queue.cursor.toInt + product).bmod (2 ^ 64) := Word.toInt_add_mul _ _ _
  have hdue : (queue.due frameCount : Int) =
      min product (queue.samples.length - queue.cursor.toInt) := by
    unfold due
    omega
  set limit := if Word.ofLength queue.samples.length < queue.cursor + frameCount * queue.channels
    then Word.ofLength queue.samples.length else queue.cursor + frameCount * queue.channels
    with hlimit
  have hlimit_eq : limit.toInt =
      min (queue.cursor + frameCount * queue.channels).toInt queue.samples.length :=
    queue.toInt_clamp _
  have happly : (AudioCall.drain frameCount).apply queue =
      if queue.cursor.toInt ≤ limit.toInt then
        some ({ queue with cursor := limit },
          (queue.samples.drop queue.cursor.toInt.toNat).take
            (limit.toInt - queue.cursor.toInt).toNat)
      else none := by
    rw [AudioCall.apply, audioQueueDrain, if_neg hnone]
    simp only [← hlimit]
    rw [sliceBetween_cursor ⟨hlow, hhigh⟩ (by omega)]
    by_cases hle : queue.cursor.toInt ≤ limit.toInt
    · rw [if_pos hle, if_pos hle]
      rfl
    · rw [if_neg hle, if_neg hle]
      rfl
  -- the end is right exactly where it is the cursor moved by what is due
  have hright : (∃ next returned, (AudioCall.drain frameCount).apply queue = some (next, returned) ∧
      queue.Right (.drain frameCount) next returned) ↔
        limit.toInt = queue.cursor.toInt + queue.due frameCount := by
    rw [happly]
    constructor
    · rintro ⟨next, returned, hstep, _, hdrained⟩
      split at hstep
      · cases hstep
        exact (hdrained frameCount rfl).2
      · cases hstep
    · intro heq
      rw [if_pos (by omega)]
      refine ⟨_, _, rfl, ⟨?_, ?_⟩, ?_⟩
      · change 0 ≤ limit.toInt
        omega
      · change limit.toInt ≤ queue.samples.length
        omega
      · rintro _ ⟨⟩
        refine ⟨?_, heq⟩
        rw [show (limit.toInt - queue.cursor.toInt).toNat = queue.due frameCount by omega]
  rw [hright, Exact, or_iff_right hnone, hlimit_eq, hdue, hsum]
  have hfits : (queue.samples.length : Int) < 2 ^ 63 := by
    exact_mod_cast queue.fits
  constructor
  · intro heq
    by_contra hwrong
    omega
  · rintro (hexact | hlong)
    · rw [Word.bmod_eq_self (by omega) hexact]
      omega
    · have hbounds := Word.bmod_bounds (queue.cursor.toInt + product)
      by_cases hexact : queue.cursor.toInt + product < 2 ^ 63
      · rw [Word.bmod_eq_self (by omega) hexact]
        omega
      · omega

theorem right_iff (hrange : queue.InRange) (hchannels : 0 < queue.channels.toInt)
    (call : AudioCall) :
    (∃ next returned, call.apply queue = some (next, returned) ∧ queue.Right call next returned) ↔
      queue.Exact call := by
  cases call with
  | push audio => exact right_push_iff hrange audio
  | seek frameOffset => exact right_seek_iff frameOffset
  | drain frameCount => exact right_drain_iff hrange hchannels frameCount

end Step

theorem allRight_iff_allExact (calls : List AudioCall) {queue : AudioQueue} (hrange : queue.InRange)
    (hchannels : 0 < queue.channels.toInt) : queue.AllRight calls ↔ queue.AllExact calls := by
  induction calls generalizing queue with
  | nil => exact Iff.rfl
  | cons call rest ih =>
      rw [AllRight, AllExact]
      constructor
      · rintro ⟨next, returned, happly, hright, hrest⟩
        refine ⟨(right_iff hrange hchannels call).mp ⟨next, returned, happly, hright⟩, ?_⟩
        intro next' returned' happly'
        obtain ⟨rfl, rfl⟩ : next = next' ∧ returned = returned' := by
          simpa [happly] using happly'
        refine (ih hright.1 ?_).mp hrest
        rwa [channels_apply hchannels happly]
      · rintro ⟨hexact, hrest⟩
        obtain ⟨next, returned, happly, hright⟩ := (right_iff hrange hchannels call).mpr hexact
        refine ⟨next, returned, happly, hright, (ih hright.1 ?_).mpr (hrest _ _ happly)⟩
        rwa [channels_apply hchannels happly]

/-- Over any sequence of calls on a new queue, each call does what it is to do exactly where the
arithmetic of each is exact enough. -/
theorem audioNewQueue_allRight_iff (sampleRate channels : Int64) (calls : List AudioCall) :
    (audioNewQueue sampleRate channels).AllRight calls ↔
      (audioNewQueue sampleRate channels).AllExact calls := by
  have hrange : (audioNewQueue sampleRate channels).InRange := by
    change 0 ≤ (0 : Int64).toInt ∧ (0 : Int64).toInt ≤ ((0 : Nat) : Int)
    decide
  refine allRight_iff_allExact calls hrange ?_
  change 0 < (if channels ≤ 0 then 1 else channels).toInt
  split
  · decide
  · rename_i hpositive
    rw [Int64.le_iff_toInt_le] at hpositive
    exact Int.not_le.mp hpositive

/-- A seek whose product wraps around leaves the cursor before the first sample. -/
theorem seek_wraps_negative :
    ¬∀ sampleRate channels calls, (audioNewQueue sampleRate channels).AllRight calls := by
  intro hclaim
  obtain ⟨next, returned, happly, hright, _⟩ := hclaim 44100 2 [.seek 4611686018427387904]
  cases happly
  exact absurd hright.1.1 (by decide)

end AudioQueue

end Jayess.Runtime
