import Mathlib.Data.List.Basic
import Mathlib.Data.List.Induction
import Jayess.Number.LittleEndian
import Jayess.Runtime.AudioQueue

/-!
# WAV files
-/

namespace Jayess.Runtime

open LittleEndian

abbrev Checked := ExceptT String Option

def errUnsupportedAudioFormat : String := "unsupported audio format"

def unsupported {α : Type} (what : String) : Checked α :=
  throw (errUnsupportedAudioFormat ++ ": " ++ what)

/-- The slice expression `data[low:high]`. -/
def bytesAt (data : List UInt8) (low high : Nat) : Checked (List UInt8) :=
  ExceptT.mk (if low ≤ high ∧ high ≤ data.length then
    some (.ok ((data.drop low).take (high - low))) else none)

def decodePCM16LE : List UInt8 → List Int16
  | first :: second :: data => (uint16 [first, second]).toInt16 :: decodePCM16LE data
  | _ => []

/-- `RIFF`. -/
def riffID : List UInt8 := [0x52, 0x49, 0x46, 0x46]
/-- `WAVE`. -/
def waveID : List UInt8 := [0x57, 0x41, 0x56, 0x45]
/-- `fmt ` with its space. -/
def fmtID : List UInt8 := [0x66, 0x6D, 0x74, 0x20]
/-- `data`. -/
def dataID : List UInt8 := [0x64, 0x61, 0x74, 0x61]

section Parser

variable (data : List UInt8)

/-- The audio holds what the chunks have said so far. -/
def parseFmtChunk (chunkStart chunkSize : Nat) (audio : PCMAudio) : Checked PCMAudio := do
  if chunkSize < 16 then unsupported "fmt chunk"
  else
    let format ← bytesAt data chunkStart (chunkStart + 2)
    if uint16 format ≠ 1 then unsupported "non-pcm wav"
    else
      let channels ← bytesAt data (chunkStart + 2) (chunkStart + 4)
      let sampleRate ← bytesAt data (chunkStart + 4) (chunkStart + 8)
      let bitsPerSample ← bytesAt data (chunkStart + 14) (chunkStart + 16)
      if uint16 bitsPerSample ≠ 16 then unsupported "wav bits"
      else
        return { audio with
          channels := Int64.ofNat (uint16 channels).toNat
          sampleRate := Int64.ofNat (uint32 sampleRate).toNat
          bitsPerSample := Int64.ofNat (uint16 bitsPerSample).toNat }

def parseChunk (chunkID : List UInt8) (chunkStart chunkSize : Nat) (audio : PCMAudio) :
    Checked PCMAudio := do
  if chunkID = fmtID then parseFmtChunk data chunkStart chunkSize audio
  else if chunkID = dataID then
    let samples ← bytesAt data chunkStart (chunkStart + chunkSize)
    return { audio with samples := decodePCM16LE samples }
  else return audio

/-- A round reads a chunk, so that as many rounds as there are bytes read the whole file. -/
def parseChunksLoop : Nat → Nat → PCMAudio → Checked PCMAudio
  | 0, _, audio => return audio
  | rounds + 1, offset, audio => do
      if offset + 8 ≤ data.length then
        let chunkID ← bytesAt data offset (offset + 4)
        let size ← bytesAt data (offset + 4) (offset + 8)
        let chunkSize := (uint32 size).toNat
        let chunkEnd := offset + 8 + chunkSize
        if data.length < chunkEnd then unsupported "truncated chunk"
        else
          let audio ← parseChunk data chunkID (offset + 8) chunkSize audio
          parseChunksLoop rounds (if chunkEnd % 2 = 1 then chunkEnd + 1 else chunkEnd) audio
      else return audio

def audioParseWAV : Checked PCMAudio := do
  if data.length < 12 then unsupported "wav header"
  else
    let riff ← bytesAt data 0 4
    if riff ≠ riffID then unsupported "wav header"
    else
      let wave ← bytesAt data 8 12
      if wave ≠ waveID then unsupported "wav header"
      else
        let audio ← parseChunksLoop data data.length 12 ⟨0, 0, 0, []⟩
        if audio.sampleRate = 0 ∨ audio.channels = 0 ∨ audio.samples.length = 0 then
          unsupported "incomplete wav"
        else return audio

end Parser

/-! ## Files -/

/-- The chunks of a file of 16-bit PCM samples. The rates are the four bytes of the byte rate and the two of
the block alignment; a last byte of a data chunk that is no whole sample is odd. -/
inductive WavChunk where
  | fmt (channels : UInt16) (sampleRate : UInt32) (rates extra : List UInt8)
  | data (samples : List Int16) (odd : List UInt8)
  | other (id bytes : List UInt8)

namespace WavChunk

def id : WavChunk → List UInt8
  | fmt _ _ _ _ => fmtID
  | data _ _ => dataID
  | other id _ => id

def body : WavChunk → List UInt8
  | fmt channels sampleRate rates extra =>
      bytes16 1 ++ (bytes16 channels ++ (bytes32 sampleRate ++ (rates ++ (bytes16 16 ++ extra))))
  | data samples odd => (samples.flatMap fun sample => bytes16 sample.toUInt16) ++ odd
  | other _ bytes => bytes

def Shaped : WavChunk → Prop
  | fmt _ _ rates _ => rates.length = 6
  | data _ odd => odd.length ≤ 1
  | other id _ => id.length = 4 ∧ id ≠ fmtID ∧ id ≠ dataID

/-- The size fits its four bytes. -/
structure WellFormed (chunk : WavChunk) : Prop where
  shaped : chunk.Shaped
  size : chunk.body.length < 2 ^ 32

def head (chunk : WavChunk) : List UInt8 := chunk.id ++ bytes32 (UInt32.ofNat chunk.body.length)

end WavChunk

inductive WholeChunks : List UInt8 → List WavChunk → Prop
  | nil : WholeChunks [] []
  | cons {chunk : WavChunk} {pad rest : List UInt8} {chunks : List WavChunk} (hchunk : chunk.WellFormed)
      (hpad : pad.length = chunk.body.length % 2) (hrest : WholeChunks rest chunks) :
      WholeChunks (chunk.head ++ (chunk.body ++ (pad ++ rest))) (chunk :: chunks)

/-- Bytes that begin with chunks: too few bytes for a further chunk may follow, and the padding of a last
chunk may be missing. -/
inductive Chunks : List UInt8 → List WavChunk → Prop
  | done {rest : List UInt8} (hshort : rest.length < 8) : Chunks rest []
  | cons {chunk : WavChunk} {pad rest : List UInt8} {chunks : List WavChunk} (hchunk : chunk.WellFormed)
      (hpad : pad.length = chunk.body.length % 2 ∨ pad = [] ∧ rest = []) (hrest : Chunks rest chunks) :
      Chunks (chunk.head ++ (chunk.body ++ (pad ++ rest))) (chunk :: chunks)

/-- A file with a header, whose size is not looked at. -/
def wavFile (size content : List UInt8) : List UInt8 := riffID ++ (size ++ (waveID ++ content))

def lastFormat (chunks : List WavChunk) : Option (UInt16 × UInt32) :=
  (chunks.filterMap fun
    | .fmt channels sampleRate _ _ => some (channels, sampleRate)
    | _ => none).getLast?

def lastSamples (chunks : List WavChunk) : Option (List Int16) :=
  (chunks.filterMap fun
    | .data samples _ => some samples
    | _ => none).getLast?

namespace AudioWav

variable (data : List UInt8)

/-- No slice expression is out of range. -/
def Completes : Prop := ∃ result, (audioParseWAV data).run = some result

/-- A file of whole chunks with a fmt chunk and a data chunk gives the format of the last fmt chunk and the
samples of the last data chunk. -/
def ParsesFile : Prop :=
  ∀ size content chunks, size.length = 4 → data = wavFile size content → WholeChunks content chunks →
    ∀ channels sampleRate samples, lastFormat chunks = some (channels, sampleRate) →
      lastSamples chunks = some samples →
        audioParseWAV data =
          pure ⟨Int64.ofNat sampleRate.toNat, Int64.ofNat channels.toNat, 16, samples⟩

/-- What is returned holds a whole number of frames. -/
def WholeFrames : Prop :=
  ∀ audio, audioParseWAV data = pure audio → audio.channels.toInt ∣ audio.samples.length

def heardAs (channels : UInt16) (sampleRate : UInt32) (samples : List Int16) : PCMAudio :=
  ⟨Int64.ofNat sampleRate.toNat, Int64.ofNat channels.toNat, 16, samples⟩

/-- A file of whole chunks with a fmt chunk and a data chunk gives the format of the last fmt chunk and the
samples of the last data chunk, and is refused as incomplete if the channels, the rate or the samples are
missing. -/
def ReadsFile : Prop :=
  ∀ size content chunks, size.length = 4 → data = wavFile size content → WholeChunks content chunks →
    ∀ channels sampleRate samples, lastFormat chunks = some (channels, sampleRate) →
      lastSamples chunks = some samples →
        audioParseWAV data =
          if sampleRate = 0 ∨ channels = 0 ∨ samples = [] then unsupported "incomplete wav"
          else pure (heardAs channels sampleRate samples)

/-- What is returned has channels, a rate and samples, and holds a whole number of frames where the samples of
the last data chunk are frames of the last fmt chunk. -/
def FramesOfFile : Prop :=
  ∀ audio, audioParseWAV data = pure audio →
    ∃ size content chunks channels sampleRate samples, size.length = 4 ∧ data = wavFile size content ∧
      Chunks content chunks ∧ lastFormat chunks = some (channels, sampleRate) ∧
      lastSamples chunks = some samples ∧ sampleRate ≠ 0 ∧ channels ≠ 0 ∧ samples ≠ [] ∧
      audio = heardAs channels sampleRate samples ∧
      (audio.channels.toInt ∣ audio.samples.length ↔ channels.toNat ∣ samples.length)

end AudioWav

section Slices

variable {data before middle after : List UInt8} {low high : Nat}

theorem bytesAt_of_le (hlow : low ≤ high) (hhigh : high ≤ data.length) :
    bytesAt data low high = pure ((data.drop low).take (high - low)) := by
  rw [bytesAt, if_pos ⟨hlow, hhigh⟩]
  rfl

theorem bytesAt_eq (hdata : data.drop low = middle ++ after) (hlow : low ≤ data.length)
    (hhigh : high = low + middle.length) : bytesAt data low high = pure middle := by
  have hlength := congrArg List.length hdata
  rw [List.length_drop, List.length_append] at hlength
  rw [bytesAt_of_le (by omega) (by omega), hdata, hhigh, Nat.add_sub_cancel_left, List.take_left]

theorem drop_of_drop (hdata : data.drop low = middle ++ after) (hhigh : high = low + middle.length) :
    data.drop high = after := by
  rw [hhigh, ← List.drop_drop, hdata, List.drop_left]

end Slices

theorem decodePCM16LE_samples (samples : List Int16) {odd : List UInt8} (hodd : odd.length ≤ 1) :
    decodePCM16LE ((samples.flatMap fun sample => bytes16 sample.toUInt16) ++ odd) = samples := by
  induction samples with
  | nil =>
      rcases odd with _ | ⟨byte, _ | ⟨next, rest⟩⟩
      · rfl
      · rfl
      · simp at hodd
  | cons sample samples ih =>
      have hsample : uint16 (bytes16 sample.toUInt16) = sample.toUInt16 := uint16_bytes16 _
      rw [bytes16] at hsample
      rw [List.flatMap_cons, List.append_assoc, bytes16, List.cons_append, List.cons_append,
        List.nil_append, decodePCM16LE, hsample, ih, Int16.toInt16_toUInt16]

theorem exists_samples (bytes : List UInt8) : ∃ odd : List UInt8, odd.length ≤ 1 ∧
    bytes = ((decodePCM16LE bytes).flatMap fun sample => bytes16 sample.toUInt16) ++ odd := by
  induction bytes using decodePCM16LE.induct with
  | case1 first second bytes ih =>
      obtain ⟨odd, hodd, hbytes⟩ := ih
      refine ⟨odd, hodd, ?_⟩
      rw [decodePCM16LE, List.flatMap_cons, List.append_assoc, ← hbytes, UInt16.toUInt16_toInt16,
        bytes16_pair]
      rfl
  | case2 bytes hnone =>
      refine ⟨bytes, ?_, ?_⟩
      · rcases bytes with _ | ⟨first, _ | ⟨second, rest⟩⟩
        · exact Nat.zero_le 1
        · exact Nat.le_refl 1
        · exact (hnone first second rest rfl).elim
      · rw [decodePCM16LE.eq_2 bytes hnone]
        rfl

/-- What a chunk says replaces what was said before. -/
def WavChunk.apply (audio : PCMAudio) : WavChunk → PCMAudio
  | fmt channels sampleRate _ _ =>
      { audio with
        channels := Int64.ofNat channels.toNat
        sampleRate := Int64.ofNat sampleRate.toNat
        bitsPerSample := 16 }
  | data samples _ => { audio with samples := samples }
  | other _ _ => audio

theorem WavChunk.length_id {chunk : WavChunk} (hshaped : chunk.Shaped) : chunk.id.length = 4 := by
  cases chunk with
  | fmt channels sampleRate rates extra => rfl
  | data samples odd => rfl
  | other id bytes => exact hshaped.1

section Chunks

variable {data after : List UInt8} {start : Nat}

theorem parseFmtChunk_eq {channels : UInt16} {sampleRate : UInt32} {rates extra : List UInt8}
    (hrates : rates.length = 6)
    (hdata : data.drop start = (WavChunk.fmt channels sampleRate rates extra).body ++ after)
    (hstart : start ≤ data.length) (audio : PCMAudio) :
    parseFmtChunk data start (WavChunk.fmt channels sampleRate rates extra).body.length audio =
      pure ((WavChunk.fmt channels sampleRate rates extra).apply audio) := by
  have hlength := congrArg List.length hdata
  rw [List.length_drop] at hlength
  have hbody : 16 ≤ (WavChunk.fmt channels sampleRate rates extra).body.length := by
    simp only [WavChunk.body, List.length_append, length_bytes16, length_bytes32]
    omega
  simp only [List.length_append] at hlength
  rw [WavChunk.body] at hdata
  simp only [List.append_assoc] at hdata
  have hdrop2 : data.drop (start + 2) = _ := drop_of_drop hdata rfl
  have hdrop4 : data.drop (start + 4) = _ := drop_of_drop hdrop2 rfl
  have hdrop8 : data.drop (start + 8) = _ := drop_of_drop hdrop4 rfl
  have hdrop14 : data.drop (start + 14) = _ := drop_of_drop hdrop8 (by omega)
  have hformat : bytesAt data start (start + 2) = pure (bytes16 1) := bytesAt_eq hdata hstart rfl
  have hchannels : bytesAt data (start + 2) (start + 4) = pure (bytes16 channels) :=
    bytesAt_eq hdrop2 (by omega) rfl
  have hsampleRate : bytesAt data (start + 4) (start + 8) = pure (bytes32 sampleRate) :=
    bytesAt_eq hdrop4 (by omega) rfl
  have hbits : bytesAt data (start + 14) (start + 16) = pure (bytes16 16) :=
    bytesAt_eq hdrop14 (by omega) rfl
  rw [parseFmtChunk, if_neg (by omega), hformat, pure_bind, if_neg (by rw [uint16_bytes16]; decide),
    hchannels, pure_bind, hsampleRate, pure_bind, hbits, pure_bind,
    if_neg (by rw [uint16_bytes16]; decide)]
  simp only [uint16_bytes16, uint32_bytes32]
  rfl

theorem parseChunk_eq {chunk : WavChunk} (hshaped : chunk.Shaped)
    (hdata : data.drop start = chunk.body ++ after) (hstart : start ≤ data.length) (audio : PCMAudio) :
    parseChunk data chunk.id start chunk.body.length audio = pure (chunk.apply audio) := by
  cases chunk with
  | fmt channels sampleRate rates extra => exact parseFmtChunk_eq hshaped hdata hstart audio
  | data samples odd =>
      rw [parseChunk, WavChunk.id, if_neg (by decide), if_pos rfl, bytesAt_eq hdata hstart rfl, pure_bind,
        WavChunk.body, decodePCM16LE_samples samples hshaped]
      rfl
  | other id bytes =>
      obtain ⟨-, hfmt, hdataID⟩ := hshaped
      rw [parseChunk, WavChunk.id, if_neg hfmt, if_neg hdataID]
      rfl

theorem exists_fields {body : List UInt8} (hlength : 16 ≤ body.length) :
    ∃ format channels sampleRate rates bits extra : List UInt8,
      body = format ++ (channels ++ (sampleRate ++ (rates ++ (bits ++ extra)))) ∧ format.length = 2 ∧
        channels.length = 2 ∧ sampleRate.length = 4 ∧ rates.length = 6 ∧ bits.length = 2 := by
  refine ⟨body.take 2, (body.drop 2).take 2, (body.drop 4).take 4, (body.drop 8).take 6,
    (body.drop 14).take 2, body.drop 16, ?_, ?_⟩
  · have hcut : ∀ count low high, high = low + count →
        (body.drop low).take count ++ body.drop high = body.drop low := by
      rintro count low _ rfl
      rw [← List.drop_drop, List.take_append_drop]
    rw [hcut 2 14 16 rfl, hcut 6 8 14 rfl, hcut 4 4 8 rfl, hcut 2 2 4 rfl, List.take_append_drop]
  · simp only [List.length_take, List.length_drop]
    omega

theorem parseFmtChunk_cases {body : List UInt8} (hdata : data.drop start = body ++ after)
    (hstart : start ≤ data.length) (audio : PCMAudio) :
    (∃ chunk : WavChunk, chunk.Shaped ∧ chunk.id = fmtID ∧ chunk.body = body) ∨
      ∃ message, parseFmtChunk data start body.length audio = throw message := by
  have hdataLength := congrArg List.length hdata
  rw [List.length_drop, List.length_append] at hdataLength
  by_cases hshort : body.length < 16
  · right
    exact ⟨_, by rw [parseFmtChunk, if_pos hshort]; rfl⟩
  obtain ⟨format, channels, sampleRate, rates, bits, extra, rfl, hformat, hchannels, hsampleRate, hrates,
    hbits⟩ := exists_fields (not_lt.mp hshort)
  simp only [List.append_assoc] at hdata
  have hdrop2 : data.drop (start + 2) = _ := drop_of_drop hdata (by omega)
  have hdrop4 : data.drop (start + 4) = _ := drop_of_drop hdrop2 (by omega)
  have hdrop8 : data.drop (start + 8) = _ := drop_of_drop hdrop4 (by omega)
  have hdrop14 : data.drop (start + 14) = _ := drop_of_drop hdrop8 (by omega)
  have hreadFormat : bytesAt data start (start + 2) = pure format :=
    bytesAt_eq hdata hstart (by omega)
  have hreadChannels : bytesAt data (start + 2) (start + 4) = pure channels :=
    bytesAt_eq hdrop2 (by omega) (by omega)
  have hreadSampleRate : bytesAt data (start + 4) (start + 8) = pure sampleRate :=
    bytesAt_eq hdrop4 (by omega) (by omega)
  have hreadBits : bytesAt data (start + 14) (start + 16) = pure bits :=
    bytesAt_eq hdrop14 (by omega) (by omega)
  rw [parseFmtChunk, if_neg hshort, hreadFormat, pure_bind]
  by_cases hpcm : uint16 format = 1
  · rw [if_neg (not_not.mpr hpcm), hreadChannels, pure_bind, hreadSampleRate, pure_bind, hreadBits,
      pure_bind]
    by_cases hwide : uint16 bits = 16
    · left
      refine ⟨.fmt (uint16 channels) (uint32 sampleRate) rates extra, hrates, rfl, ?_⟩
      rw [WavChunk.body, ← hpcm, ← hwide, bytes16_uint16 hformat, bytes16_uint16 hchannels,
        bytes32_uint32 hsampleRate, bytes16_uint16 hbits]
    · right
      exact ⟨_, by rw [if_pos hwide]; rfl⟩
  · right
    exact ⟨_, by rw [if_pos hpcm]; rfl⟩

theorem parseChunk_cases {id body : List UInt8} (hid : id.length = 4)
    (hdata : data.drop start = body ++ after) (hstart : start ≤ data.length) (audio : PCMAudio) :
    (∃ chunk : WavChunk, chunk.Shaped ∧ chunk.id = id ∧ chunk.body = body) ∨
      ∃ message, parseChunk data id start body.length audio = throw message := by
  by_cases hfmt : id = fmtID
  · rw [parseChunk, if_pos hfmt, hfmt]
    exact parseFmtChunk_cases hdata hstart audio
  left
  by_cases hsamples : id = dataID
  · obtain ⟨odd, hodd, hbody⟩ := exists_samples body
    exact ⟨.data (decodePCM16LE body) odd, hodd, hsamples.symm, hbody.symm⟩
  · exact ⟨.other id body, ⟨hid, hfmt, hsamples⟩, rfl, rfl⟩

end Chunks

section Walk

variable {data content : List UInt8} {chunks : List WavChunk} {offset : Nat}

theorem next_even {stop : Nat} : (if stop % 2 = 1 then stop + 1 else stop) % 2 = 0 := by
  split <;> omega

theorem parseChunksLoop_eq (hchunks : Chunks content chunks) {rounds : Nat} {audio : PCMAudio}
    (hdata : data.drop offset = content) (heven : offset % 2 = 0) (hrounds : content.length ≤ rounds) :
    parseChunksLoop data rounds offset audio = pure (chunks.foldl WavChunk.apply audio) := by
  induction hchunks generalizing offset rounds audio with
  | done hshort =>
      cases rounds with
      | zero => rfl
      | succ rounds =>
          have hlength := congrArg List.length hdata
          rw [List.length_drop] at hlength
          rw [parseChunksLoop, if_neg (by omega)]
          rfl
  | @cons chunk pad rest chunks hchunk hpad _ ih =>
      have hlength := congrArg List.length hdata
      rw [WavChunk.head] at hdata hlength hrounds
      simp only [List.length_append, List.length_drop, length_bytes32,
        WavChunk.length_id hchunk.shaped] at hlength hrounds
      have hsize : (uint32 (bytes32 (UInt32.ofNat chunk.body.length))).toNat = chunk.body.length := by
        rw [uint32_bytes32]
        exact UInt32.toNat_ofNat_of_lt' hchunk.size
      rw [List.append_assoc] at hdata
      have hdrop4 : data.drop (offset + 4) = _ :=
        drop_of_drop hdata (by rw [WavChunk.length_id hchunk.shaped])
      have hdrop8 : data.drop (offset + 8) = _ := drop_of_drop hdrop4 rfl
      have hdropEnd : data.drop (offset + 8 + chunk.body.length) = _ := drop_of_drop hdrop8 rfl
      have hid : bytesAt data offset (offset + 4) = pure chunk.id :=
        bytesAt_eq hdata (by omega) (by rw [WavChunk.length_id hchunk.shaped])
      have hbytes : bytesAt data (offset + 4) (offset + 8) = pure _ :=
        bytesAt_eq hdrop4 (by omega) rfl
      set stop := offset + 8 + chunk.body.length with hstop
      have hnext : data.drop (if stop % 2 = 1 then stop + 1 else stop) = rest := by
        rcases hpad with hpad | ⟨rfl, rfl⟩
        · exact drop_of_drop hdropEnd (by split <;> omega)
        · rw [List.append_nil] at hdropEnd
          have hend := congrArg List.length hdropEnd
          rw [List.length_drop, List.length_nil] at hend
          refine List.drop_eq_nil_of_le ?_
          split <;> omega
      cases rounds with
      | zero => omega
      | succ rounds =>
          rw [parseChunksLoop, if_pos (by omega), hid, pure_bind, hbytes, pure_bind]
          simp only [hsize, ← hstop]
          rw [if_neg (by omega), parseChunk_eq hchunk.shaped hdrop8 (by omega), pure_bind,
            ih hnext next_even (by omega)]
          rfl

theorem exists_head (hlong : 8 ≤ content.length) : ∃ id size tail : List UInt8,
    content = id ++ (size ++ tail) ∧ id.length = 4 ∧ size.length = 4 := by
  refine ⟨content.take 4, (content.drop 4).take 4, content.drop 8, ?_, ?_⟩
  · rw [show 8 = 4 + 4 from rfl, ← List.drop_drop, List.take_append_drop, List.take_append_drop]
  · simp only [List.length_take, List.length_drop]
    omega

theorem parseChunksLoop_cases (rounds : Nat) (audio : PCMAudio) (hdata : data.drop offset = content)
    (heven : offset % 2 = 0) (hrounds : content.length ≤ rounds) :
    (∃ chunks, Chunks content chunks) ∨
      ∃ message, parseChunksLoop data rounds offset audio = throw message := by
  induction rounds generalizing offset audio content with
  | zero => exact .inl ⟨[], .done (by omega)⟩
  | succ rounds ih =>
      have hlength := congrArg List.length hdata
      rw [List.length_drop] at hlength
      by_cases hmore : offset + 8 ≤ data.length
      swap
      · exact .inl ⟨[], .done (by omega)⟩
      have hlong : 8 ≤ content.length := by omega
      obtain ⟨id, size, tail, rfl, hidLength, hsizeLength⟩ := exists_head hlong
      simp only [List.length_append, hidLength, hsizeLength] at hlength hrounds
      have hdrop4 : data.drop (offset + 4) = _ := drop_of_drop hdata (by omega)
      have hdrop8 : data.drop (offset + 8) = _ := drop_of_drop hdrop4 (by omega)
      have hid : bytesAt data offset (offset + 4) = pure id := bytesAt_eq hdata (by omega) (by omega)
      have hsize : bytesAt data (offset + 4) (offset + 8) = pure size :=
        bytesAt_eq hdrop4 (by omega) (by omega)
      rw [parseChunksLoop, if_pos hmore, hid, pure_bind, hsize, pure_bind]
      set count := (uint32 size).toNat with hcount
      by_cases htruncated : data.length < offset + 8 + count
      · right
        exact ⟨_, by rw [if_pos htruncated]; rfl⟩
      rw [if_neg htruncated]
      -- the body, and what follows it
      have hbodyLength : (tail.take count).length = count := by
        rw [List.length_take]
        omega
      rw [← List.take_append_drop count tail] at hdrop8
      have hdropEnd : data.drop (offset + 8 + count) = _ := drop_of_drop hdrop8 (by omega)
      have hchunk := parseChunk_cases hidLength hdrop8 (by omega) audio
      rw [hbodyLength] at hchunk
      rcases hchunk with ⟨chunk, hshaped, rfl, hbody⟩ | ⟨message, hrefused⟩
      swap
      · right
        exact ⟨message, by rw [hrefused]; rfl⟩
      have hparse := parseChunk_eq hshaped (hbody ▸ hdrop8) (by omega) audio
      rw [hbody, hbodyLength] at hparse
      rw [hparse, pure_bind]
      set stop := offset + 8 + count with hstop
      set next := if stop % 2 = 1 then stop + 1 else stop with hnext
      have hnextEven : next % 2 = 0 := next_even
      have hdropNext : data.drop next = (tail.drop count).drop (next - stop) := by
        rw [← hdropEnd, List.drop_drop]
        congr 1
        rw [hnext]
        split <;> omega
      have hshorter : ((tail.drop count).drop (next - stop)).length ≤ rounds := by
        rw [List.length_drop, List.length_drop]
        omega
      rcases ih _ hdropNext hnextEven hshorter with ⟨chunks, hchunks⟩ | ⟨message, hrefused⟩
      swap
      · exact .inr ⟨message, hrefused⟩
      left
      refine ⟨chunk :: chunks, ?_⟩
      have hcontent : chunk.id ++ (size ++ tail) = chunk.head ++ (chunk.body ++
          ((tail.drop count).take (next - stop) ++ (tail.drop count).drop (next - stop))) := by
        have hofNat : UInt32.ofNat count = uint32 size := UInt32.ofNat_toNat
        rw [WavChunk.head, hbody, hbodyLength, hofNat, bytes32_uint32 hsizeLength,
          List.take_append_drop, List.take_append_drop, List.append_assoc]
      rw [hcontent]
      refine .cons ⟨hshaped, ?_⟩ ?_ hchunks
      · rw [hbody, hbodyLength]
        exact UInt32.toNat_lt _
      · rw [hbody, hbodyLength]
        by_cases hend : (tail.drop count).length < next - stop
        · right
          have hodd : next - stop ≤ 1 := by
            rw [hnext]
            split <;> omega
          have hnil : tail.drop count = [] := List.eq_nil_of_length_eq_zero (by omega)
          rw [hnil]
          exact ⟨List.take_nil, List.drop_nil⟩
        · left
          rw [List.length_take, Nat.min_eq_left (not_lt.mp hend), hnext]
          split <;> omega

end Walk

section Last

variable (chunks : List WavChunk) (chunk : WavChunk) (audio : PCMAudio)

def heard : PCMAudio := chunks.foldl WavChunk.apply ⟨0, 0, 0, []⟩

theorem heard_concat : heard (chunks ++ [chunk]) = chunk.apply (heard chunks) := List.foldl_concat _ _ _ _

theorem lastFormat_concat : lastFormat (chunks ++ [chunk]) =
    (lastFormat [chunk]).or (lastFormat chunks) := by
  cases chunk <;> simp [lastFormat]

theorem lastSamples_concat : lastSamples (chunks ++ [chunk]) =
    (lastSamples [chunk]).or (lastSamples chunks) := by
  cases chunk <;> simp [lastSamples]

theorem heard_format {channels : UInt16} {sampleRate : UInt32}
    (hlast : lastFormat chunks = some (channels, sampleRate)) :
    (heard chunks).channels = Int64.ofNat channels.toNat ∧
      (heard chunks).sampleRate = Int64.ofNat sampleRate.toNat ∧ (heard chunks).bitsPerSample = 16 := by
  induction chunks using List.reverseRecOn with
  | nil => cases hlast
  | append_singleton chunks chunk ih =>
      rw [lastFormat_concat] at hlast
      rw [heard_concat]
      cases chunk with
      | fmt channels sampleRate rates extra =>
          cases hlast
          exact ⟨rfl, rfl, rfl⟩
      | data samples odd => exact ih hlast
      | other id bytes => exact ih hlast

theorem heard_no_format (hlast : lastFormat chunks = none) : (heard chunks).channels = 0 := by
  induction chunks using List.reverseRecOn with
  | nil => rfl
  | append_singleton chunks chunk ih =>
      rw [lastFormat_concat] at hlast
      rw [heard_concat]
      cases chunk with
      | fmt channels sampleRate rates extra => cases hlast
      | data samples odd => exact ih hlast
      | other id bytes => exact ih hlast

theorem heard_samples : (heard chunks).samples = (lastSamples chunks).getD [] := by
  induction chunks using List.reverseRecOn with
  | nil => rfl
  | append_singleton chunks chunk ih =>
      rw [heard_concat, lastSamples_concat]
      cases chunk with
      | fmt channels sampleRate rates extra => exact ih
      | data samples odd => rfl
      | other id bytes => exact ih

theorem heard_eq {channels : UInt16} {sampleRate : UInt32} {samples : List Int16}
    (hformat : lastFormat chunks = some (channels, sampleRate)) (hsamples : lastSamples chunks = some samples) :
    heard chunks = AudioWav.heardAs channels sampleRate samples := by
  obtain ⟨hchannels, hsampleRate, hbits⟩ := heard_format chunks hformat
  have hheard := heard_samples chunks
  rw [hsamples, Option.getD_some] at hheard
  rw [AudioWav.heardAs, ← hchannels, ← hsampleRate, ← hbits, ← hheard]

end Last

theorem channels_toInt (channels : UInt16) : (Int64.ofNat channels.toNat).toInt = channels.toNat := by
  have hlt := channels.toNat_lt
  exact Int64.toInt_ofNat_of_lt (by omega)

theorem channels_eq_zero (channels : UInt16) : Int64.ofNat channels.toNat = 0 ↔ channels = 0 := by
  rw [← Int64.toInt_inj, channels_toInt, ← UInt16.toNat_inj]
  exact Int.natCast_eq_zero

theorem sampleRate_eq_zero (sampleRate : UInt32) : Int64.ofNat sampleRate.toNat = 0 ↔ sampleRate = 0 := by
  have hlt := sampleRate.toNat_lt
  rw [← Int64.toInt_inj, Int64.toInt_ofNat_of_lt (by omega), ← UInt32.toNat_inj]
  exact Int.natCast_eq_zero

section File

variable {data size content : List UInt8} {chunks : List WavChunk}

theorem WholeChunks.read (hwhole : WholeChunks content chunks) : Chunks content chunks := by
  induction hwhole with
  | nil => exact .done (by decide)
  | cons hchunk hpad _ ih => exact .cons hchunk (.inl hpad) ih

theorem audioParseWAV_wavFile (hsize : size.length = 4) (hchunks : Chunks content chunks) :
    audioParseWAV (wavFile size content) =
      if (heard chunks).sampleRate = 0 ∨ (heard chunks).channels = 0 ∨
          (heard chunks).samples.length = 0 then unsupported "incomplete wav"
      else pure (heard chunks) := by
  have hlength : (wavFile size content).length = 12 + content.length := by
    simp only [wavFile, List.length_append, hsize]
    change 4 + (4 + (4 + content.length)) = _
    omega
  have hdrop0 : (wavFile size content).drop 0 = riffID ++ (size ++ (waveID ++ content)) := rfl
  have hdrop4 : (wavFile size content).drop 4 = _ := drop_of_drop hdrop0 rfl
  have hdrop8 : (wavFile size content).drop 8 = _ := drop_of_drop hdrop4 (by omega)
  have hdrop12 : (wavFile size content).drop 12 = _ := drop_of_drop hdrop8 rfl
  have hriff : bytesAt (wavFile size content) 0 4 = pure riffID := bytesAt_eq rfl (Nat.zero_le _) rfl
  have hwave : bytesAt (wavFile size content) 8 12 = pure waveID := bytesAt_eq hdrop8 (by omega) rfl
  have hloop : parseChunksLoop (wavFile size content) (wavFile size content).length 12 ⟨0, 0, 0, []⟩ =
      pure (heard chunks) := parseChunksLoop_eq hchunks hdrop12 rfl (by omega)
  rw [audioParseWAV, if_neg (by omega), hriff, pure_bind, if_neg (not_not.mpr rfl), hwave, pure_bind,
    if_neg (not_not.mpr rfl), hloop, pure_bind]

theorem exists_header :
    data = data.take 4 ++ ((data.drop 4).take 4 ++ ((data.drop 8).take 4 ++ data.drop 12)) := by
  have hcut : ∀ low high, high = low + 4 → (data.drop low).take 4 ++ data.drop high = data.drop low := by
    rintro low _ rfl
    rw [← List.drop_drop, List.take_append_drop]
  rw [hcut 8 12 rfl, hcut 4 8 rfl, List.take_append_drop]

theorem audioParseWAV_cases (data : List UInt8) :
    (∃ size content chunks, size.length = 4 ∧ data = wavFile size content ∧ Chunks content chunks) ∨
      ∃ message, audioParseWAV data = throw message := by
  by_cases hshort : data.length < 12
  · right
    exact ⟨_, by rw [audioParseWAV, if_pos hshort]; rfl⟩
  have hriff : bytesAt data 0 4 = pure (data.take 4) := bytesAt_of_le (by omega) (by omega)
  have hwave : bytesAt data 8 12 = pure ((data.drop 8).take 4) := bytesAt_of_le (by omega) (by omega)
  rw [audioParseWAV, if_neg hshort, hriff, pure_bind]
  by_cases hriffID : data.take 4 = riffID
  swap
  · right
    exact ⟨_, by rw [if_pos hriffID]; rfl⟩
  rw [if_neg (not_not.mpr hriffID), hwave, pure_bind]
  by_cases hwaveID : (data.drop 8).take 4 = waveID
  swap
  · right
    exact ⟨_, by rw [if_pos hwaveID]; rfl⟩
  rw [if_neg (not_not.mpr hwaveID)]
  have hcontent : (data.drop 12).length ≤ data.length := by
    rw [List.length_drop]
    omega
  have hloop := parseChunksLoop_cases data.length ⟨0, 0, 0, []⟩ rfl rfl hcontent
  rcases hloop with ⟨chunks, hchunks⟩ | ⟨message, hrefused⟩
  · left
    refine ⟨(data.drop 4).take 4, data.drop 12, chunks, ?_, ?_, hchunks⟩
    · rw [List.length_take, List.length_drop]
      omega
    · rw [wavFile, ← hriffID, ← hwaveID]
      exact exists_header
  · right
    exact ⟨message, by rw [hrefused]; rfl⟩

theorem audioParseWAV_heardAs (hsize : size.length = 4) (hchunks : Chunks content chunks)
    {channels : UInt16} {sampleRate : UInt32} {samples : List Int16}
    (hformat : lastFormat chunks = some (channels, sampleRate)) (hsamples : lastSamples chunks = some samples) :
    audioParseWAV (wavFile size content) =
      if sampleRate = 0 ∨ channels = 0 ∨ samples = [] then unsupported "incomplete wav"
      else pure (AudioWav.heardAs channels sampleRate samples) := by
  rw [audioParseWAV_wavFile hsize hchunks, heard_eq chunks hformat hsamples]
  simp only [AudioWav.heardAs, channels_eq_zero, sampleRate_eq_zero, List.length_eq_zero_iff]

end File

namespace AudioWav

variable (data : List UInt8)

theorem readsFile : ReadsFile data := by
  rintro size content chunks hsize rfl hwhole channels sampleRate samples hformat hsamples
  exact audioParseWAV_heardAs hsize hwhole.read hformat hsamples

theorem completes : Completes data := by
  rcases audioParseWAV_cases data with ⟨size, content, chunks, hsize, rfl, hchunks⟩ | ⟨message, hrefused⟩
  · rw [Completes, audioParseWAV_wavFile hsize hchunks]
    split
    · exact ⟨_, rfl⟩
    · exact ⟨_, rfl⟩
  · rw [Completes, hrefused]
    exact ⟨_, rfl⟩

theorem framesOfFile : FramesOfFile data := by
  intro audio haudio
  rcases audioParseWAV_cases data with ⟨size, content, chunks, hsize, rfl, hchunks⟩ | ⟨message, hrefused⟩
  swap
  · rw [hrefused] at haudio
    cases haudio
  have hparsed := audioParseWAV_wavFile hsize hchunks
  rw [haudio] at hparsed
  have hformat : lastFormat chunks ≠ none := by
    intro hnone
    rw [if_pos (.inr (.inl (heard_no_format chunks hnone)))] at hparsed
    cases hparsed
  have hsamples : lastSamples chunks ≠ none := by
    intro hnone
    have hheard := heard_samples chunks
    rw [hnone] at hheard
    rw [if_pos (.inr (.inr (List.length_eq_zero_iff.mpr hheard)))] at hparsed
    cases hparsed
  obtain ⟨⟨channels, sampleRate⟩, hformat⟩ := Option.ne_none_iff_exists'.mp hformat
  obtain ⟨samples, hsamples⟩ := Option.ne_none_iff_exists'.mp hsamples
  rw [audioParseWAV_heardAs hsize hchunks hformat hsamples] at haudio
  by_cases hmissing : sampleRate = 0 ∨ channels = 0 ∨ samples = []
  · rw [if_pos hmissing] at haudio
    cases haudio
  rw [if_neg hmissing] at haudio
  obtain rfl : heardAs channels sampleRate samples = audio := by
    cases haudio
    rfl
  simp only [not_or] at hmissing
  obtain ⟨hsampleRate, hchannels, hnonempty⟩ := hmissing
  refine ⟨size, content, chunks, channels, sampleRate, samples, hsize, rfl, hchunks, hformat, hsamples,
    hsampleRate, hchannels, hnonempty, rfl, ?_⟩
  rw [heardAs, channels_toInt]
  exact Int.natCast_dvd_natCast

/-- No slice is out of range, a file of whole chunks is read, and the frames are those of the file. -/
theorem audioParseWAV_reads : Completes data ∧ ReadsFile data ∧ FramesOfFile data :=
  ⟨completes data, readsFile data, framesOfFile data⟩

/-- A file with a stereo format and these samples. -/
def stereoFile (samples : List Int16) : List UInt8 :=
  let format : WavChunk := .fmt 2 8000 [0x00, 0x7D, 0x00, 0x00, 0x04, 0x00] []
  let chunk : WavChunk := .data samples []
  wavFile [0x00, 0x00, 0x00, 0x00]
    (format.head ++ (format.body ++ ([] ++ (chunk.head ++ (chunk.body ++ ([] ++ []))))))

/-- One sample is half a frame, and without a sample the file is refused. -/
theorem not_wholeFrames_stereoFile : ¬ WholeFrames (stereoFile [1]) ∧ ¬ ParsesFile (stereoFile []) := by
  have hone : audioParseWAV (stereoFile [1]) = pure (heardAs 2 8000 [1]) := by rfl
  have hnone : audioParseWAV (stereoFile []) = unsupported "incomplete wav" := by rfl
  refine ⟨fun hframes => ?_, fun hparses => ?_⟩
  · exact absurd (hframes _ hone) (by decide)
  · have hformat : (WavChunk.fmt 2 8000 [0x00, 0x7D, 0x00, 0x00, 0x04, 0x00] []).WellFormed :=
      ⟨rfl, by decide⟩
    have hdata : (WavChunk.data [] []).WellFormed := ⟨Nat.zero_le 1, by decide⟩
    have hwhole := @WholeChunks.cons _ [] _ _ hformat rfl (@WholeChunks.cons _ [] _ _ hdata rfl .nil)
    have hread := hparses _ _ _ rfl rfl hwhole 2 8000 [] rfl rfl
    rw [hnone] at hread
    cases hread

end AudioWav

end Jayess.Runtime
