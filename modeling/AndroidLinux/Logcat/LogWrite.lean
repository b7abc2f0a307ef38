import AndroidLinux.Logcat.FormatComplete
import AndroidLinux.Logcat.TextEntry

/-!
# Writing to the log

The text half of `logd_write_kern.c`: what `__android_log_write`, `__android_log_buf_write` and
the functions that format before they write hand to `writev`, and what becomes of it when
`logcat` reads the entry.  `printf` is not modelled: a message is the string that it makes.
-/

namespace AndroidLinux
namespace Logcat

open Lib

def LOG_ID_MAIN : Int := 0
def LOG_ID_RADIO : Int := 1

/-- The tags of the radio log. -/
def isRadioTag (tag : CString) : Bool :=
  tag.bytes == "HTC_RIL".toList.map ch || tag.bytes.take 3 == "RIL".toList.map ch ||
    tag.bytes == "AT".toList.map ch || tag.bytes == "GSM".toList.map ch ||
    tag.bytes == "STK".toList.map ch || tag.bytes == "CDMA".toList.map ch ||
    tag.bytes == "PHONE".toList.map ch || tag.bytes == "SMS".toList.map ch

/-- `__android_log_buf_write`: the log, and the vector of which one byte is the priority. -/
def logBufWrite (bufID : Int) (prio : UInt32) (tag : Option CString) (msg : CString) :
    Int × List (List UInt8) :=
  let tag := tag.getD .empty
  (if isRadioTag tag then LOG_ID_RADIO else bufID,
    [[prio.toUInt8], tag.bytes ++ [0], msg.bytes ++ [0]])

/-- `__android_log_write`. -/
def logWrite (prio : UInt32) (tag : Option CString) (msg : CString) : Int × List (List UInt8) :=
  logBufWrite LOG_ID_MAIN prio tag msg

def LOG_BUF_SIZE : Nat := 1024

/-- `__android_log_buf_print`, whose `vsnprintf` makes `text` and cuts it off. -/
def logBufPrint (bufID : Int) (prio : UInt32) (tag : Option CString) (text : CString) :
    Int × List (List UInt8) :=
  logBufWrite bufID prio tag (text.strncpy (LOG_BUF_SIZE - 1))

/-- `__android_log_print` and `__android_log_vprint`. -/
def logPrint (prio : UInt32) (tag : Option CString) (text : CString) : Int × List (List UInt8) :=
  logWrite prio tag (text.strncpy (LOG_BUF_SIZE - 1))

def LOGGER_ENTRY_MAX_PAYLOAD : Nat := 4 * 1024 - 20

/-! ## What is read of it -/

/-- The memory of an entry that `readLogLines` has read: the payload, and a NUL behind it. -/
structure Holds (buf : EntryHeader) (memory : Mem) (payload : List UInt8) : Prop where
  len : buf.len.toNat = payload.length
  load : memory.load 0 payload.length = payload
  nul : memory (UInt32.ofNat payload.length) = 0

/-- What `android_log_processLogBuffer` has pointed to. -/
structure TextEntry.Shows (e : TextEntry) (memory : Mem) (entry : LogEntry) : Prop where
  tvSec : entry.tvSec = e.tvSec.toInt32
  tvNsec : entry.tvNsec = e.tvNsec.toInt32
  priority : entry.priority = .ofValue e.priority.toNat
  pid : entry.pid = e.pid.toInt32
  tid : entry.tid = e.tid.toInt32
  tag : memory.load e.tag (entry.tag.strlen + 1) = entry.tag.bytes ++ [0]
  messageLen : e.messageLen.toNat = entry.message.length
  message : memory.load e.message entry.message.length = entry.message

/-- The parts of a payload in memory. -/
theorem Holds.parts {buf : EntryHeader} {memory : Mem} {prio : UInt8} {tag rest : List UInt8}
    (h : Holds buf memory ([prio] ++ (tag ++ [0]) ++ rest)) :
    memory 0 = prio ∧ memory.load 1 (tag.length + 1) = tag ++ [0] ∧
      memory.load (UInt32.ofNat (tag.length + 2)) rest.length = rest := by
  have hload := h.load
  have hlen : ([prio] ++ (tag ++ [0]) ++ rest).length = 1 + (tag.length + 1) + rest.length := by
    simp only [List.length_append, List.length_singleton]
  rw [hlen, Mem.load_add, Mem.load_add] at hload
  have hfirst : (memory.load 0 1 ++ memory.load (0 + UInt32.ofNat 1) (tag.length + 1)).length =
      ([prio] ++ (tag ++ [0])).length := by
    simp only [List.length_append, Mem.load_length, List.length_singleton]
  obtain ⟨hhead, hrest⟩ := List.append_inj hload hfirst
  obtain ⟨hprio, htag⟩ := List.append_inj hhead (Mem.load_length _ _ _)
  rw [Mem.load_one] at hprio
  rw [UInt32.zero_add, show 1 + (tag.length + 1) = tag.length + 2 by omega] at hrest
  exact ⟨(List.cons.inj hprio).1, htag, hrest⟩

/-- The payload that the log keeps of a vector: the first bytes of all that is in it. -/
theorem payload_eq (prio : UInt8) {tag : List UInt8} (msg : List UInt8)
    (htag : tag.length + 3 ≤ LOGGER_ENTRY_MAX_PAYLOAD) :
    [[prio], tag ++ [0], msg ++ [0]].flatten.take LOGGER_ENTRY_MAX_PAYLOAD =
      [prio] ++ (tag ++ [0]) ++
        (msg ++ [0]).take (LOGGER_ENTRY_MAX_PAYLOAD - (tag.length + 2)) := by
  have hflat : [[prio], tag ++ [0], msg ++ [0]].flatten =
      ([prio] ++ (tag ++ [0])) ++ (msg ++ [0]) := by
    simp only [List.flatten_cons, List.flatten_nil, List.append_nil, List.append_assoc]
  have hlen : ([prio] ++ (tag ++ [0])).length = tag.length + 2 := by
    simp only [List.length_append, List.length_singleton]
    omega
  rw [hflat, List.take_append, List.take_of_length_le (by omega), hlen]

/-- The text that is read is the message without its NUL, or without the last byte that has been
kept of it. -/
theorem text_eq (msg : List UInt8) (room : Nat) (hroom : 1 ≤ room) :
    ((msg ++ [0]).take room).take (((msg ++ [0]).take room).length - 1) = msg.take (room - 1) := by
  rw [List.take_take, List.length_take, List.length_append, List.length_singleton,
    show min (min room (msg.length + 1) - 1) room = min (room - 1) msg.length by omega,
    List.take_append_of_le_length (Nat.min_le_right _ _)]
  rcases Nat.le_total (room - 1) msg.length with hle | hle
  · rw [Nat.min_eq_left hle]
  · rw [Nat.min_eq_right hle, List.take_length, List.take_of_length_le hle]

theorem load_take (memory : Mem) (off : UInt32) {k n : Nat} (h : k ≤ n) :
    (memory.load off n).take k = memory.load off k := by
  rw [← Nat.add_sub_cancel' h, Mem.load_add,
    List.take_append_of_le_length (Mem.load_length _ _ _).ge,
    List.take_of_length_le (Mem.load_length _ _ _).le]

/-- An entry of which the tag is not too long is read back as it was written, up to the bytes of
the message that the log does not keep. -/
theorem reads_back {buf : EntryHeader} {memory : Mem} (prio : UInt8) (tag msg : CString)
    (htag : tag.strlen + 3 ≤ LOGGER_ENTRY_MAX_PAYLOAD)
    (h : Holds buf memory ([[prio], tag.bytes ++ [0], msg.bytes ++ [0]].flatten.take
      LOGGER_ENTRY_MAX_PAYLOAD)) :
    ∃ e, ∃ entry : LogEntry, processLogBuffer buf memory = some (0, e) ∧ e.Shows memory entry ∧
      entry.priority = .ofValue prio.toNat ∧ entry.tag = tag ∧
      entry.message = msg.bytes.take (LOGGER_ENTRY_MAX_PAYLOAD - 3 - tag.strlen) ∧
      entry.pid = buf.pid.toInt32 ∧ entry.tid = buf.tid.toInt32 ∧
      e.message.toNat + e.messageLen.toNat + 1 = buf.len.toNat := by
  rw [payload_eq prio msg.bytes htag] at h
  obtain ⟨rest, hrest⟩ : ∃ rest, (msg.bytes ++ [0]).take
    (LOGGER_ENTRY_MAX_PAYLOAD - (tag.bytes.length + 2)) = rest := ⟨_, rfl⟩
  have htext := text_eq msg.bytes (LOGGER_ENTRY_MAX_PAYLOAD - (tag.bytes.length + 2)) (by
      unfold CString.strlen at htag
      omega)
  rw [hrest] at h htext
  obtain ⟨hprio, hload, hload'⟩ := h.parts
  have hlen := h.len
  have hbound := buf.len.toNat_lt
  simp only [List.length_append, List.length_singleton] at hlen
  have hpos : 1 ≤ rest.length := by
    rw [← hrest, List.length_take, List.length_append, List.length_singleton]
    unfold CString.strlen at htag
    omega
  have hfound : memory.findNul 1 (2 ^ 32) = some tag.bytes.length :=
    Mem.findNul_eq hload tag.noNul (by omega)
  obtain ⟨hmessage, hsize, -⟩ := offsets buf.len (k := tag.bytes.length) (by omega)
  have hmessage' : (1 : UInt32) + UInt32.ofNat tag.bytes.length + 1 =
      UInt32.ofNat (tag.bytes.length + 2) := by
    rw [← UInt32.toNat_inj, hmessage]
    exact (UInt32.toNat_ofNat_of_lt' (show _ < 2 ^ 32 by omega)).symm
  have hshort : (rest.take (rest.length - 1)).length = rest.length - 1 := by
    rw [List.length_take]
    omega
  refine ⟨_, ⟨buf.sec.toInt32, buf.nsec.toInt32, .ofValue prio.toNat, buf.pid.toInt32,
    buf.tid.toInt32, tag, rest.take (rest.length - 1), by omega⟩,
    by rw [processLogBuffer, hfound]; rfl, ⟨rfl, rfl, by rw [hprio], rfl, rfl, hload, ?_, ?_⟩,
    rfl, rfl, ?_, rfl, rfl, ?_⟩
  · dsimp only
    rw [hsize (by omega), hshort]
    omega
  · dsimp only
    rw [hmessage', hshort]
    rw [← load_take _ _ (Nat.sub_le rest.length 1), hload']
  · dsimp only
    rw [htext, CString.strlen, show LOGGER_ENTRY_MAX_PAYLOAD - (tag.bytes.length + 2) - 1 =
      LOGGER_ENTRY_MAX_PAYLOAD - 3 - tag.bytes.length by omega]
  · dsimp only
    rw [hmessage, hsize (by omega)]
    omega

/-! ## Tags that are too long -/

theorem long_payload_length {prio : UInt8} {tag msg : List UInt8}
    (hlong : LOGGER_ENTRY_MAX_PAYLOAD < tag.length + 3) :
    ([[prio], tag ++ [0], msg ++ [0]].flatten.take LOGGER_ENTRY_MAX_PAYLOAD).length =
      LOGGER_ENTRY_MAX_PAYLOAD := by
  simp only [List.flatten_cons, List.flatten_nil, List.length_take, List.length_append,
    List.length_singleton, List.length_nil]
  omega

/-- Of a tag that is too long, the NUL is the last byte of the payload or lies behind it. -/
theorem findNul_long {buf : EntryHeader} {memory : Mem} {prio : UInt8} {tag msg : CString}
    (hlong : LOGGER_ENTRY_MAX_PAYLOAD < tag.strlen + 3)
    (h : Holds buf memory ([[prio], tag.bytes ++ [0], msg.bytes ++ [0]].flatten.take
      LOGGER_ENTRY_MAX_PAYLOAD)) :
    ∃ k, LOGGER_ENTRY_MAX_PAYLOAD - 2 ≤ k ∧ k + 1 ≤ LOGGER_ENTRY_MAX_PAYLOAD ∧
      memory.findNul 1 (2 ^ 32) = some k := by
  have hload := h.load
  have hnul := h.nul
  rw [long_payload_length hlong] at hload hnul
  have hbehind : memory.load 1 (LOGGER_ENTRY_MAX_PAYLOAD - 1) =
      (tag.bytes ++ [0] ++ (msg.bytes ++ [0])).take (LOGGER_ENTRY_MAX_PAYLOAD - 1) := by
    have hsplit := Mem.load_add memory 0 1 (LOGGER_ENTRY_MAX_PAYLOAD - 1)
    rw [show 1 + (LOGGER_ENTRY_MAX_PAYLOAD - 1) = LOGGER_ENTRY_MAX_PAYLOAD by decide, hload]
      at hsplit
    have hdrop := congrArg (List.drop 1) hsplit
    rw [List.drop_left' (Mem.load_length _ _ _), UInt32.zero_add, List.drop_take] at hdrop
    simpa using hdrop.symm
  unfold CString.strlen at hlong
  rw [List.append_assoc] at hbehind
  by_cases hwhole : tag.bytes.length + 2 = LOGGER_ENTRY_MAX_PAYLOAD
  · refine ⟨tag.bytes.length, by omega, by omega, Mem.findNul_eq ?_ tag.noNul ?_⟩
    · rw [show tag.bytes.length + 1 = LOGGER_ENTRY_MAX_PAYLOAD - 1 by omega, hbehind,
        ← List.append_assoc, List.take_append_of_le_length (by
          rw [List.length_append, List.length_singleton]; omega),
        List.take_of_length_le (by rw [List.length_append, List.length_singleton]; omega)]
    · have hsmall : LOGGER_ENTRY_MAX_PAYLOAD < 2 ^ 32 := by decide
      omega
  · rw [List.take_append_of_le_length (by omega)] at hbehind
    have hlen : (tag.bytes.take (LOGGER_ENTRY_MAX_PAYLOAD - 1)).length =
        LOGGER_ENTRY_MAX_PAYLOAD - 1 := by
      rw [List.length_take]
      omega
    refine ⟨LOGGER_ENTRY_MAX_PAYLOAD - 1, by omega, by decide, ?_⟩
    rw [← hlen]
    refine Mem.findNul_eq ?_ (fun hmem => tag.noNul (List.mem_of_mem_take hmem)) ?_
    · rw [hlen, Mem.load_add, hbehind, Mem.load_one]
      exact congrArg (fun b => _ ++ [b]) hnul
    · rw [hlen]
      decide

theorem messageLen_wrapped (len : UInt16) {k : Nat} (hk : k + 1 ≤ len.toNat)
    (hlate : len.toNat < k + 3) :
    (len.toUInt32 - UInt32.ofNat k - 3).toNat = 2 ^ 32 + len.toNat - k - 3 := by
  have hlen := len.toNat_lt
  have hof : (UInt32.ofNat k).toNat = k := UInt32.toNat_ofNat_of_lt' (show k < 2 ^ 32 by omega)
  have hthree : (3 : UInt32).toNat = 3 := rfl
  have hwide : len.toUInt32.toNat = len.toNat := rfl
  rw [UInt32.toNat_sub, UInt32.toNat_sub, hof, hthree, hwide]
  omega

/-! ## From the writer to the printed line -/

section Printed

variable (store : List (List UInt8) → List UInt8)
  (hstore : ∀ vec, store vec = vec.flatten.take LOGGER_ENTRY_MAX_PAYLOAD)

include hstore

/-- What is written with a tag that fits is printed with that tag, priority and process, in every
format, up to the bytes of the message for which the log has no room. -/
theorem printed_as_written (bufID : Int) (prio : UInt32) (tag : Option CString) (msg : CString)
    (htag : (tag.getD .empty).strlen + 3 ≤ LOGGER_ENTRY_MAX_PAYLOAD) {buf : EntryHeader}
    {memory : Mem} (h : Holds buf memory (store (logBufWrite bufID prio tag msg).2)) :
    ∃ e, ∃ entry : LogEntry, processLogBuffer buf memory = some (0, e) ∧ e.Shows memory entry ∧
      entry.priority = .ofValue prio.toUInt8.toNat ∧ entry.tag = tag.getD .empty ∧
      entry.pid = buf.pid.toInt32 ∧ entry.tid = buf.tid.toInt32 ∧
      ∀ time format defaultBufferSize output, ∃ r,
        formatLogLine time format defaultBufferSize entry output = some r ∧
        (List.range r.outLength).map r.out =
          promisedText (prefixOf time format entry) (suffixOf format entry) format
            (msg.bytes.take (LOGGER_ENTRY_MAX_PAYLOAD - 3 - (tag.getD .empty).strlen)) := by
  rw [hstore] at h
  obtain ⟨e, entry, hsplit, hshows, hprio, htag', hmessage, hpid, htid, -⟩ :=
    reads_back prio.toUInt8 (tag.getD .empty) msg htag h
  refine ⟨e, entry, hsplit, hshows, hprio, htag', hpid, htid,
    fun time format defaultBufferSize output => ?_⟩
  have hnul : 0 ∉ entry.message := by
    rw [hmessage]
    exact fun hmem => msg.noNul (List.mem_of_mem_take hmem)
  refine ⟨_, formatLogLine_whole time format defaultBufferSize entry hnul output, ?_⟩
  rw [← hmessage]
  exact range_map_storeAt output _

/-- A message that has been formatted in a buffer of the writer is read back whole, if its tag
leaves room for the largest one. -/
theorem print_not_cut (bufID : Int) (prio : UInt32) (tag : Option CString) (text : CString)
    (htag : (tag.getD .empty).strlen + (LOG_BUF_SIZE - 1) + 3 ≤ LOGGER_ENTRY_MAX_PAYLOAD)
    {buf : EntryHeader} {memory : Mem}
    (h : Holds buf memory (store (logBufPrint bufID prio tag text).2)) :
    ∃ e, ∃ entry : LogEntry, processLogBuffer buf memory = some (0, e) ∧ e.Shows memory entry ∧
      entry.tag = tag.getD .empty ∧ entry.message = text.bytes.take (LOG_BUF_SIZE - 1) := by
  rw [hstore] at h
  obtain ⟨e, entry, hsplit, hshows, -, htag', hmessage, -⟩ :=
    reads_back prio.toUInt8 (tag.getD .empty) (text.strncpy (LOG_BUF_SIZE - 1)) (by omega) h
  refine ⟨e, entry, hsplit, hshows, htag', ?_⟩
  rw [hmessage, CString.strncpy, List.take_take,
    show min (LOGGER_ENTRY_MAX_PAYLOAD - 3 - (tag.getD .empty).strlen) (LOG_BUF_SIZE - 1) =
      LOG_BUF_SIZE - 1 by omega]

/-- The length that is read for the message is that of a part of the payload exactly when the tag
leaves room for a NUL behind it and one more byte, whatever the message is; behind every longer
tag it wraps. -/
theorem written_inside_iff (bufID : Int) (prio : UInt32) (tag : Option CString) (msg : CString)
    {buf : EntryHeader} {memory : Mem}
    (h : Holds buf memory (store (logBufWrite bufID prio tag msg).2)) :
    ((∃ e, processLogBuffer buf memory = some (0, e) ∧
        e.message.toNat + e.messageLen.toNat ≤ buf.len.toNat) ↔
      (tag.getD .empty).strlen + 3 ≤ LOGGER_ENTRY_MAX_PAYLOAD) ∧
    (LOGGER_ENTRY_MAX_PAYLOAD < (tag.getD .empty).strlen + 3 →
      ∃ e, processLogBuffer buf memory = some (0, e) ∧
        (e.messageLen.toNat = 2 ^ 32 - 1 ∨ e.messageLen.toNat = 2 ^ 32 - 2)) := by
  rw [hstore] at h
  have hwraps (hlong : LOGGER_ENTRY_MAX_PAYLOAD < (tag.getD .empty).strlen + 3) :
      ∃ e, processLogBuffer buf memory = some (0, e) ∧
        (e.messageLen.toNat = 2 ^ 32 - 1 ∨ e.messageLen.toNat = 2 ^ 32 - 2) := by
    obtain ⟨k, hk, hle, hfound⟩ := findNul_long hlong h
    have hlen := h.len.trans (long_payload_length hlong)
    have hlarge := messageLen_wrapped buf.len (k := k) (by omega) (by omega)
    refine ⟨_, by rw [processLogBuffer, hfound]; rfl, ?_⟩
    dsimp only
    omega
  refine ⟨⟨?_, ?_⟩, hwraps⟩
  · rintro ⟨e, hsplit, hinside⟩
    by_contra hlong
    obtain ⟨e', hsplit', hlarge⟩ := hwraps (Nat.not_le.mp hlong)
    obtain rfl := (Prod.mk.inj (Option.some.inj (hsplit.symm.trans hsplit'))).2
    have hbound := buf.len.toNat_lt
    omega
  · intro htag
    obtain ⟨e, entry, hsplit, -, -, -, -, -, -, hend⟩ :=
      reads_back prio.toUInt8 (tag.getD .empty) msg htag h
    exact ⟨e, hsplit, by omega⟩

end Printed

/-! ## A tag and a message of one byte -/

def shortTag : CString := ⟨[65], by decide⟩

def shortMessage : CString := ⟨[66], by decide⟩

def shortMemory : Mem := fun a => [4, 65, 0, 66, 0].getD a.toNat 0

/-- What the log keeps. -/
def keep (vec : List (List UInt8)) : List UInt8 := vec.flatten.take LOGGER_ENTRY_MAX_PAYLOAD

theorem short_holds :
    Holds ⟨5, 100, 101, 0, 0⟩ shortMemory
      (keep (logBufWrite LOG_ID_MAIN 4 (some shortTag) shortMessage).2) where
  len := by decide
  load := by decide
  nul := by decide

theorem printed_as_written_short : ∃ e, ∃ entry : LogEntry,
    processLogBuffer ⟨5, 100, 101, 0, 0⟩ shortMemory = some (0, e) ∧ e.Shows shortMemory entry ∧
      entry.priority = .info ∧ entry.tag = shortTag ∧ entry.pid = 100 ∧ entry.tid = 101 ∧
      ∀ time format defaultBufferSize output, ∃ r,
        formatLogLine time format defaultBufferSize entry output = some r ∧
        (List.range r.outLength).map r.out =
          promisedText (prefixOf time format entry) (suffixOf format entry) format [66] :=
  printed_as_written keep (fun _ => rfl) LOG_ID_MAIN 4 (some shortTag) shortMessage (by decide)
    short_holds

theorem print_not_cut_short : ∃ e, ∃ entry : LogEntry,
    processLogBuffer ⟨5, 100, 101, 0, 0⟩ shortMemory = some (0, e) ∧ e.Shows shortMemory entry ∧
      entry.tag = shortTag ∧ entry.message = [66] :=
  print_not_cut keep (fun _ => rfl) LOG_ID_MAIN 4 (some shortTag) shortMessage (by decide)
    (show Holds _ _ (keep (logPrint 4 (some shortTag) shortMessage).2) from short_holds)

theorem written_inside_iff_short :
    ((∃ e, processLogBuffer ⟨5, 100, 101, 0, 0⟩ shortMemory = some (0, e) ∧
        e.message.toNat + e.messageLen.toNat ≤ 5) ↔
      (1 : Nat) + 3 ≤ LOGGER_ENTRY_MAX_PAYLOAD) ∧
    (LOGGER_ENTRY_MAX_PAYLOAD < (1 : Nat) + 3 →
      ∃ e, processLogBuffer ⟨5, 100, 101, 0, 0⟩ shortMemory = some (0, e) ∧
        (e.messageLen.toNat = 2 ^ 32 - 1 ∨ e.messageLen.toNat = 2 ^ 32 - 2)) :=
  written_inside_iff keep (fun _ => rfl) LOG_ID_MAIN 4 (some shortTag) shortMessage short_holds

end Logcat
end AndroidLinux
