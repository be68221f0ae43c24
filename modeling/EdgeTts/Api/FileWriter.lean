import EdgeTts.Api.SavedFiles

/-!
# `api/FileWriter.cpp`

`OfStream` is what the two functions rely on of `std::ofstream`: a write hands a part of the
data to the device and may keep the rest in a buffer (`StreamBuffer`), the state knows only of
what has been handed over, and the destructor hands over the rest and tells nobody
(`writeFile_eq`).  The last check of the state comes before that, so a file that was cut short
in the destructor is reported as written (`Loses`).
-/
namespace EdgeTts

open Files (Action)
open Interaction (Event)

/-- How much of the waiting bytes a stream keeps in its buffer. -/
structure StreamBuffer where
  size : Nat
  kept : Nat → Nat
  kept_le : ∀ n, kept n ≤ n
  kept_le_size : ∀ n, kept n ≤ size

/-- What a device does with a file: whether it opens, and how many bytes it takes. -/
structure Device where
  opens : Bool
  room : Nat
  deriving DecidableEq, Repr

/-- `std::ofstream`; `file` is what the device holds, if the file could be opened. -/
structure OfStream where
  good : Bool
  pending : Bytes
  file : Option Bytes
  room : Nat
  deriving DecidableEq, Repr

namespace OfStream

/-- The constructor, with `std::ios::trunc`. -/
def openFile (device : Device) : OfStream where
  good := device.opens
  pending := []
  file := if device.opens then some [] else none
  room := device.room

/-- Bytes are given to the device, which takes what it has room for. -/
def handOver (stream : OfStream) (bytes : Bytes) : OfStream :=
  { stream with
    good := stream.good && decide (bytes.length ≤ stream.room)
    file := stream.file.map (· ++ bytes.take stream.room)
    room := stream.room - bytes.length }

/-- `write`. -/
def write (buffer : StreamBuffer) (stream : OfStream) (data : Bytes) : OfStream :=
  if !stream.good then stream
  else
    let waiting := stream.pending ++ data
    let handed := waiting.length - buffer.kept waiting.length
    { stream.handOver (waiting.take handed) with pending := waiting.drop handed }

/-- What the file holds after the destructor. -/
def destroyed (stream : OfStream) : Option Bytes := (stream.handOver stream.pending).file

end OfStream

namespace FileWriter

/-- The body of both functions: the result, and what the file holds after it. -/
def writeFile (openMessage writeMessage : Bytes) (buffer : StreamBuffer) (device : Device)
    (path bytes : Bytes) : Result Unit × Option Bytes :=
  let file := OfStream.openFile device
  if !file.good then (.error ⟨.ioError, openMessage, path⟩, file.destroyed)
  else
    let file := if !bytes.isEmpty then file.write buffer bytes else file
    if !file.good then (.error ⟨.ioError, writeMessage, path⟩, file.destroyed)
    else (.ok (), file.destroyed)

/-- `FileWriter::write_binary`. -/
def writeBinary (buffer : StreamBuffer) (device : Device) (path bytes : Bytes) :
    Result Unit × Option Bytes :=
  writeFile (lit "Failed to open file for binary write") (lit "Failed to write binary data")
    buffer device path bytes

/-- `FileWriter::write_text_utf8`. -/
def writeTextUtf8 (buffer : StreamBuffer) (device : Device) (path text : Bytes) :
    Result Unit × Option Bytes :=
  writeFile (lit "Failed to open file for text write") (lit "Failed to write text data")
    buffer device path text

/-- The device has room for what is handed over before the last check, and not for all. -/
def Loses (buffer : StreamBuffer) (device : Device) (bytes : Bytes) : Prop :=
  device.opens = true ∧ bytes.length - buffer.kept bytes.length ≤ device.room ∧
    device.room < bytes.length

/-! ## One file -/

section
variable {openMessage writeMessage : Bytes} {buffer : StreamBuffer} {device : Device}
  {path bytes : Bytes}

/-- What a stream has done after one write, and what its file holds at the end. -/
theorem write_openFile (hopens : device.opens = true) (buffer : StreamBuffer) (bytes : Bytes) :
    let stream := (OfStream.openFile device).write buffer bytes
    stream.good = decide (bytes.length - buffer.kept bytes.length ≤ device.room) ∧
      stream.destroyed = some (bytes.take device.room) := by
  have hhanded : bytes.length - buffer.kept bytes.length ≤ bytes.length := Nat.sub_le _ _
  rw [OfStream.write, OfStream.openFile, hopens]
  simp only [Bool.not_true, Bool.false_eq_true, if_false, if_true, List.nil_append,
    OfStream.destroyed, OfStream.handOver, Option.map_some, Bool.true_and, List.length_take]
  generalize bytes.length - buffer.kept bytes.length = handed at hhanded
  rw [Nat.min_eq_left hhanded]
  refine ⟨rfl, congrArg some ?_⟩
  rw [List.take_take]
  by_cases hroom : device.room ≤ handed
  · rw [Nat.min_eq_left hroom, Nat.sub_eq_zero_of_le hroom, List.take_zero, List.append_nil]
  · have hsplit : device.room = handed + (device.room - handed) := by omega
    rw [Nat.min_eq_right (by omega)]
    conv_rhs => rw [hsplit, List.take_add]

/-- A file without bytes is not written to, which makes no difference. -/
theorem write_openFile_nil (hopens : device.opens = true) :
    let stream := OfStream.openFile device
    stream.good = decide (([] : Bytes).length - buffer.kept ([] : Bytes).length ≤ device.room) ∧
      stream.destroyed = some (([] : Bytes).take device.room) := by
  rw [OfStream.openFile, hopens]
  simp [OfStream.destroyed, OfStream.handOver]

/-- **What the functions return, and what they leave.**  The result looks at the bytes that
were handed over before the last check, the file at what the device had room for. -/
theorem writeFile_eq :
    writeFile openMessage writeMessage buffer device path bytes =
      if device.opens = false then (.error ⟨.ioError, openMessage, path⟩, none)
      else (if bytes.length - buffer.kept bytes.length ≤ device.room then .ok ()
        else .error ⟨.ioError, writeMessage, path⟩, some (bytes.take device.room)) := by
  by_cases hopens : device.opens = true
  · have hspec : ∃ stream, (if !bytes.isEmpty then (OfStream.openFile device).write buffer bytes
        else OfStream.openFile device) = stream ∧
        stream.good = decide (bytes.length - buffer.kept bytes.length ≤ device.room) ∧
        stream.destroyed = some (bytes.take device.room) := by
      cases bytes with
      | nil => exact ⟨_, rfl, write_openFile_nil hopens⟩
      | cons b bytes => exact ⟨_, rfl, write_openFile hopens buffer (b :: bytes)⟩
    obtain ⟨stream, hstream, hgood, hfile⟩ := hspec
    have hopened : (OfStream.openFile device).good = true := hopens
    have hclosed : ¬ device.opens = false := by rw [hopens]; decide
    rw [writeFile, if_neg (by rw [hopened]; decide), if_neg hclosed]
    simp only [hstream, hgood, hfile]
    by_cases hroom : bytes.length - buffer.kept bytes.length ≤ device.room
    · simp [hroom]
    · simp [hroom]
  · have hclosed : device.opens = false := by simpa using hopens
    have hopened : (OfStream.openFile device).good = false := hclosed
    rw [writeFile, if_pos (by rw [hopened]; rfl), if_pos hclosed]
    rw [OfStream.destroyed, OfStream.handOver, OfStream.openFile, hclosed]
    rfl

/-- **Success is the truth about the file** unless the tail is lost. -/
theorem writeFile_full_iff :
    ((writeFile openMessage writeMessage buffer device path bytes).1 = .ok () →
      (writeFile openMessage writeMessage buffer device path bytes).2 = some bytes) ↔
      ¬ Loses buffer device bytes := by
  rw [writeFile_eq, Loses]
  by_cases hopens : device.opens = false
  · simp [hopens]
  · rw [if_neg hopens]
    by_cases hroom : bytes.length - buffer.kept bytes.length ≤ device.room
    · rw [if_pos hroom]
      simp only [Option.some.injEq, List.take_eq_self_iff, forall_const]
      rw [Bool.not_eq_false] at hopens
      simp [hopens, hroom]
    · simp [hroom]

theorem full_iff_of_ok
    (h : (writeFile openMessage writeMessage buffer device path bytes).1 = .ok ()) :
    (writeFile openMessage writeMessage buffer device path bytes).2 = some bytes ↔
      ¬ Loses buffer device bytes :=
  (forall_prop_of_true h).symm.trans writeFile_full_iff

end

/-! ## A run of `save` -/

section
variable (buffer : StreamBuffer) (device : ApiCommand → Device)

/-- A file writer served the event: `device` is what the device does while it serves a
command. -/
def Served : Event ApiCommand ApiReply → Prop
  | ⟨.writeBinary path bytes, reply⟩ =>
      reply = (writeBinary buffer (device (.writeBinary path bytes)) path bytes).1
  | ⟨.writeTextUtf8 path text, reply⟩ =>
      reply = (writeTextUtf8 buffer (device (.writeTextUtf8 path text)) path text).1
  | _ => True

/-- The file of the event holds everything that was to be written. -/
def Full : Event ApiCommand ApiReply → Prop
  | ⟨.writeBinary path bytes, _⟩ =>
      (writeBinary buffer (device (.writeBinary path bytes)) path bytes).2 = some bytes
  | ⟨.writeTextUtf8 path text, _⟩ =>
      (writeTextUtf8 buffer (device (.writeTextUtf8 path text)) path text).2 = some text
  | _ => True

/-- The tail of the file of the event is lost. -/
def LosesTail : Event ApiCommand ApiReply → Prop
  | ⟨.writeBinary path bytes, _⟩ => Loses buffer (device (.writeBinary path bytes)) bytes
  | ⟨.writeTextUtf8 path text, _⟩ => Loses buffer (device (.writeTextUtf8 path text)) text
  | _ => False

end

section
variable {buffer : StreamBuffer} {device : ApiCommand → Device}

/-- An event that is reported as a success. -/
theorem Served.full_iff {ev : Event ApiCommand ApiReply} (served : Served buffer device ev)
    (ok : ∀ path bytes acknowledged, fileAction ev = some (.write path bytes acknowledged) →
      acknowledged = true) :
    Full buffer device ev ↔ ¬ LosesTail buffer device ev := by
  obtain ⟨c, reply⟩ := ev
  cases c with
  | writeBinary path bytes =>
      cases reply with
      | error e => cases ok path bytes false rfl
      | ok u => exact full_iff_of_ok served.symm
  | writeTextUtf8 path text =>
      cases reply with
      | error e => cases ok path text false rfl
      | ok u => exact full_iff_of_ok served.symm
  | _ => exact iff_of_true trivial id

/-- **A reported success is a full file exactly where no tail is lost**, for both functions, and
so for the files of a `save` that returns ok. -/
theorem fileWriter_full_iff (buffer : StreamBuffer) :
    (∀ (device : Device) (path bytes : Bytes),
      ((writeBinary buffer device path bytes).1 = .ok () →
        (writeBinary buffer device path bytes).2 = some bytes) ↔ ¬ Loses buffer device bytes) ∧
    (∀ (device : Device) (path text : Bytes),
      ((writeTextUtf8 buffer device path text).1 = .ok () →
        (writeTextUtf8 buffer device path text).2 = some text) ↔ ¬ Loses buffer device text) ∧
    ∀ (device : ApiCommand → Device) {s s' : SpeechSynthesizer} {mediaPath : Bytes}
      {subtitlesPath : Option Bytes} {t : ApiTrace},
      (s.save mediaPath subtitlesPath).Runs t (s', .ok ()) →
      (∀ ev ∈ t, Served buffer device ev) →
      ((∀ ev ∈ t, Full buffer device ev) ↔ ∀ ev ∈ t, ¬ LosesTail buffer device ev) := by
  refine ⟨fun _ _ _ => writeFile_full_iff, fun _ _ _ => writeFile_full_iff, ?_⟩
  intro device s s' mediaPath subtitlesPath t run served
  obtain ⟨before, rest, chunks, submaker, srt, -, -, -, hactions⟩ := (save_runs run).of_ok
  apply forall₂_congr
  intro ev hev
  refine (served ev hev).full_iff fun path bytes acknowledged haction => ?_
  have hmem : Action.write path bytes acknowledged ∈ fileActions t :=
    List.mem_filterMap.mpr ⟨ev, hev, haction⟩
  rw [hactions] at hmem
  rcases List.mem_cons.mp hmem with heq | hmem
  · cases heq
    rfl
  · obtain ⟨subtitles, -, heq⟩ := List.mem_map.mp hmem
    cases heq
    rfl

/-- A buffer of 8191 bytes that keeps what is shorter than 1024 bytes. -/
def smallWrites : StreamBuffer where
  size := 8191
  kept n := if n < 1024 then n else 0
  kept_le n := by
    split
    · exact le_refl n
    · exact Nat.zero_le n
  kept_le_size n := by
    split
    · omega
    · exact Nat.zero_le _

theorem writeFile_short {openMessage writeMessage path bytes : Bytes} {device : Device}
    (hopens : device.opens = true) (hshort : bytes.length < 1024) :
    (writeFile openMessage writeMessage smallWrites device path bytes).1 = .ok () := by
  have hkept : smallWrites.kept bytes.length = bytes.length := if_pos hshort
  rw [writeFile_eq, if_neg (by rw [hopens]; decide), hkept, Nat.sub_self, if_pos (Nat.zero_le _)]

/-- Whatever room there is, the short files of the greeting are reported as written. -/
theorem served_greeting (room : Nat) :
    ∀ ev ∈ greetingTrace (lit "hi.srt"), Served smallWrites (fun _ => ⟨true, room⟩) ev := by
  simp only [greetingTrace, List.forall_mem_cons]
  refine ⟨trivial, trivial, trivial, ?_, ?_, nofun⟩
  · exact (writeFile_short rfl (by decide +kernel)).symm
  · exact (writeFile_short rfl (by decide +kernel)).symm

theorem fileWriter_full_iff_greeting :
    (greeting.save (lit "hi.mp3") (some (lit "hi.srt"))).Runs (greetingTrace (lit "hi.srt"))
      ({ greeting with called := true }, .ok ()) ∧
    (∀ ev ∈ greetingTrace (lit "hi.srt"), Served smallWrites (fun _ => ⟨true, 100⟩) ev) ∧
    ∀ ev ∈ greetingTrace (lit "hi.srt"), Full smallWrites (fun _ => ⟨true, 100⟩) ev := by
  have run := greeting_runs (lit "hi.srt")
  have served := served_greeting 100
  refine ⟨run, served, ?_⟩
  refine ((fileWriter_full_iff smallWrites).2.2 (fun _ => ⟨true, 100⟩) run served).mpr ?_
  have hfits : ∀ bytes : Bytes, bytes.length ≤ 100 → ¬ Loses smallWrites ⟨true, 100⟩ bytes :=
    fun bytes hlength hloses => absurd hloses.2.2 (Nat.not_lt.mpr hlength)
  simp only [greetingTrace, List.forall_mem_cons]
  refine ⟨id, id, id, ?_, ?_, nofun⟩
  · exact hfits _ (by decide +kernel)
  · exact hfits _ (by decide +kernel)

/-- On a full disk a short file is empty and reported as written, and so are those of a `save`
that returns ok. -/
theorem not_fileWriter_full :
    writeBinary smallWrites ⟨true, 0⟩ (lit "hi.mp3") (lit "mp3") = (.ok (), some []) ∧
    writeTextUtf8 smallWrites ⟨true, 0⟩ (lit "hi.srt") greetingSrt = (.ok (), some []) ∧
    (greeting.save (lit "hi.mp3") (some (lit "hi.srt"))).Runs (greetingTrace (lit "hi.srt"))
      ({ greeting with called := true }, .ok ()) ∧
    (∀ ev ∈ greetingTrace (lit "hi.srt"), Served smallWrites (fun _ => ⟨true, 0⟩) ev) ∧
    ¬ ∀ ev ∈ greetingTrace (lit "hi.srt"), Full smallWrites (fun _ => ⟨true, 0⟩) ev := by
  have hbinary : writeBinary smallWrites ⟨true, 0⟩ (lit "hi.mp3") (lit "mp3") =
      (.ok (), some []) := by decide +kernel
  have htext : writeTextUtf8 smallWrites ⟨true, 0⟩ (lit "hi.srt") greetingSrt =
      (.ok (), some []) := by decide +kernel
  refine ⟨hbinary, htext, greeting_runs _, served_greeting 0, fun hfull => ?_⟩
  have hmedia : (writeBinary smallWrites ⟨true, 0⟩ (lit "hi.mp3") (lit "mp3")).2 =
      some (lit "mp3") := hfull ⟨.writeBinary (lit "hi.mp3") (lit "mp3"), .ok ()⟩
        (by simp [greetingTrace])
  rw [hbinary] at hmedia
  exact absurd hmedia (by decide +kernel)

end

end FileWriter
end EdgeTts
