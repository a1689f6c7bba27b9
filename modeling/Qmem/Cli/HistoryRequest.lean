import Qmem.Cli.Client
import Qmem.Daemon.History
import Qmem.EmitParts

/-!
# Requests for the history (`daemon/daemon.c`, `cli/client.c`)

The daemon answers with the times of the last snapshots, the newest first. Its text may have a
megabyte, and the answer a quarter of that: a longer text is dropped as a whole, and the client
gets an empty one.

Main result: `history_answered_iff`.
-/

namespace Qmem

open CLib Json Qmem.Tree

/-! ## The callback -/

/-- `sizeof(history_buf)`. -/
def historySize : Nat := 1024 * 1024

/-- How often the loop of `get_history_callback` turns. -/
def historyTurns (history : Ringbuf) (count : Int32) : Nat :=
  if count.toInt > ringbufCount history then ringbufCount history else count.toInt.toNat

section

variable {δ : Type}

/-- The body of the loop. -/
def historyEntry (history : Ringbuf) (i : Nat) : List (JsonCall δ) :=
  match ringbufGetRecent history i with
  | some entry =>
    if entry.data.isSome then
      objectCalls [[
        .kvInt (.lit "timestamp") entry.timestamp,
        .kvInt (.lit "index") (.ofNat i)]]
    else []
  | none => []

def historyCalls (history : Ringbuf) (count : Int32) : List (JsonCall δ) :=
  objectCalls [
    .key (.lit "history") ::
      arrayCalls (List.range (historyTurns history count)) (historyEntry history)]

/-- `get_history_callback`, with the static `history_buf`. -/
def getHistoryCallback (printG : δ → CStr) (history : Ringbuf) (buf : Bytes) (count : Int32) :
    CStr :=
  cstr (runCalls printG (historyCalls history count) (jsonInit buf historySize)).buf

/-- No `ringbuf_get_recent` of the loop leaves the `int`s. -/
def HistoryDefined (history : Ringbuf) (count : Int32) : Prop :=
  ∀ i < historyTurns history count, (ringbufRecentSlot history i).isSome

/-! ## The answer -/

/-- An entry of the document, and its index. -/
def entryTree (e : Int64 × Nat) : Tree δ :=
  .obj [(.lit "timestamp", .int e.1), (.lit "index", .int (.ofNat e.2))]

def historyTree (times : List Int64) : Tree δ :=
  .obj [(.lit "history", .arr (times.zipIdx.map entryTree))]

end

/-- The document that lists these times. -/
def historyValue (times : List Int64) : Value :=
  .obj [((CStr.lit "history").bytes, .arr (times.zipIdx.map fun e => .obj [
    ((CStr.lit "timestamp").bytes, .num e.1.toInt), ((CStr.lit "index").bytes, .num e.2)]))]

/-- Its length. -/
def historyLength (times : List Int64) : Nat :=
  14 + ((times.zipIdx.map fun e => 24 + (decInt e.1.toInt).length + (decNat e.2).length).sum - 1)

/-- A client gets the document that lists these times. -/
def HistoryRight (times : List Int64) (answer : Option CStr) : Prop :=
  ∃ text, answer = some text ∧ parse text.bytes = some (historyValue times)

/-- The times that a request asks for, the newest first. -/
def askedTimes (capacity : Nat) (pushes : List (Bytes × Int64)) (count : Int32) : List Int64 :=
  ((pushes.map Prod.snd).reverse.take capacity).take count.toInt.toNat

section

variable {δ : Type} (num : δ → NumLit)

theorem values_map {α : Type} (f : α → Tree δ) (xs : List α) :
    values num (xs.map f) = xs.map fun x => value num (f x) := by
  induction xs with
  | nil => rfl
  | cons x xs ih => rw [List.map_cons, values, ih, List.map_cons]

theorem value_historyTree {times : List Int64} (h : times.length < 2 ^ 63) :
    value num (historyTree times) = historyValue times := by
  have hentry : ∀ e ∈ times.zipIdx, value num (entryTree e) = .obj [
      ((CStr.lit "timestamp").bytes, .num e.1.toInt), ((CStr.lit "index").bytes, .num e.2)] := by
    intro e he
    have hlt := (List.getElem?_eq_some_iff.1 (List.mem_zipIdx_iff_getElem?.1 he)).1
    have hindex : (Int64.ofNat e.2).toInt = e.2 := Int64.toInt_ofNat_of_lt (by omega)
    simp only [entryTree, value, memberValues, hindex, Int.cast_natCast]
    rfl
  rw [historyTree, value, memberValues, memberValues, value, values_map,
    List.map_congr_left hentry]
  rfl

theorem render_entryTree (e : Int64 × Nat) (h : e.2 < 2 ^ 63) :
    (doc num (entryTree e)).render.length =
      23 + (decInt e.1.toInt).length + (decNat e.2).length := by
  have hindex : (Int64.ofNat e.2).toInt = e.2 := Int64.toInt_ofNat_of_lt h
  have hnat : decInt (e.2 : Int) = decNat e.2 := by
    rw [decInt, if_neg (by omega), Int.natAbs_natCast]
  have htimestamp : (Key.lit "timestamp").strLit.body.length = 9 := by decide
  have hname : (Key.lit "index").strLit.body.length = 5 := by decide
  simp only [entryTree, doc, memberDocs, Doc.render, Doc.renderMembers, Doc.renderMembersTail,
    NumLit.ofInt, hindex, hnat, List.length_append, List.length_cons, List.length_nil, htimestamp,
    hname]
  omega

theorem renderElemsTail_length (ds : List Doc) :
    (Doc.renderElemsTail ds).length = (ds.map fun d => 1 + d.render.length).sum := by
  induction ds with
  | nil => rfl
  | cons d ds ih =>
    rw [Doc.renderElemsTail, List.map_cons, List.sum_cons, List.length_cons, List.length_append, ih]
    omega

theorem docs_map {α : Type} (f : α → Tree δ) (xs : List α) :
    docs num (xs.map f) = xs.map fun x => doc num (f x) := by
  induction xs with
  | nil => rfl
  | cons x xs ih => rw [List.map_cons, docs, ih, List.map_cons]

/-- The length of the document. -/
theorem render_historyTree {times : List Int64} (h : times.length < 2 ^ 63) :
    (doc num (historyTree times)).render.length = historyLength times := by
  have hentries : (times.zipIdx.map fun e => 1 + (doc num (entryTree e)).render.length) =
      times.zipIdx.map fun e => 24 + (decInt e.1.toInt).length + (decNat e.2).length := by
    refine List.map_congr_left fun e he => ?_
    have hlt := (List.getElem?_eq_some_iff.1 (List.mem_zipIdx_iff_getElem?.1 he)).1
    rw [render_entryTree num e (by omega)]
    omega
  have hname : (Key.lit "history").strLit.body.length = 7 := by decide
  have hsum : (Doc.renderElems (docs num (times.zipIdx.map entryTree))).length =
      (times.zipIdx.map fun e => 24 + (decInt e.1.toInt).length + (decNat e.2).length).sum - 1 := by
    rw [← hentries, docs_map]
    cases times.zipIdx with
    | nil => rfl
    | cons e es =>
      rw [List.map_cons, Doc.renderElems, List.length_append, renderElemsTail_length, List.map_map,
        List.map_cons, List.sum_cons]
      simp only [Function.comp_def]
      omega
  simp only [historyTree, doc, memberDocs, Doc.render, Doc.renderMembers, Doc.renderMembersTail,
    List.length_append, List.length_cons, List.length_nil, hname, hsum, historyLength]
  omega

end

/-! ## Texts that do not fit -/

section

variable {δ : Type}

theorem historyEntry_short (history : Ringbuf) (i : Nat) :
    ∀ c ∈ historyEntry (δ := δ) history i, isShort c = true := by
  rw [historyEntry]
  split
  · split
    · simp [objectCalls, isShort]
    · exact fun c hc => absurd hc List.not_mem_nil
  · exact fun c hc => absurd hc List.not_mem_nil

theorem historyCalls_short (history : Ringbuf) (count : Int32) :
    ∀ c ∈ historyCalls (δ := δ) history count, isShort c = true := by
  intro c hc
  simp only [historyCalls, objectCalls, arrayCalls, List.flatten_cons, List.flatten_nil,
    List.append_nil, List.mem_cons, List.mem_append, List.mem_flatMap, List.not_mem_nil,
    or_false] at hc
  rcases hc with rfl | (rfl | rfl | ⟨i, -, hc⟩ | rfl) | rfl
  · rfl
  · rfl
  · rfl
  · exact historyEntry_short history i c hc
  · rfl
  · rfl

end

section

variable (num : ℚ → NumLit) {history : Ringbuf} {count : Int32} {times : List Int64}

/-- What the callback returns: the document, or a text that is too long for an answer. -/
theorem getHistoryCallback_text
    (hemits : Emits (historyCalls history count : List (JsonCall ℚ)) (historyTree times))
    (htimes : times.length < 2 ^ 63) {buf : Bytes} (hbuf : buf.length = historySize) :
    let text := getHistoryCallback (numText num) history buf count
    if historyLength times < payloadSize then
      text.bytes.length = historyLength times ∧ parse text.bytes = some (historyValue times)
    else payloadSize ≤ text.bytes.length := by
  intro text
  have hlength := render_historyTree num htimes
  have hsizes : payloadSize = 262128 ∧ historySize = 1048576 := ⟨rfl, rfl⟩
  have hshown : text.bytes =
      (runCalls (numText num) (historyCalls history count) (jsonInit buf buf.length)).text := by
    rw [hbuf]
    rfl
  by_cases hfits : historyLength times < buf.length
  · obtain ⟨-, htext, hparse⟩ := emits_parse num hemits buf (by rw [hlength]; exact hfits)
    rw [← hshown] at htext hparse
    rw [value_historyTree num htimes] at hparse
    rw [htext] at hparse
    rw [htext, hlength]
    split
    · exact ⟨rfl, hparse⟩
    · case isFalse hlong => exact Nat.not_lt.1 hlong
  · rw [if_neg (by omega), hshown]
    have hwrote := wrote_runCalls (numText num) buf (by omega) (historyCalls history count)
    have herror : (runCalls (numText num) (historyCalls history count)
        (jsonInit buf buf.length)).error = true := by
      refine hwrote.error_iff.2 ?_
      rw [runCalls_size, ← unboundedText, unboundedText_of_emits num hemits, hlength]
      exact Nat.not_lt.1 hfits
    have hlen := hwrote.pos_length
    rw [← hwrote.text_eq (callTokens_nulFree _ _ _)] at hlen
    have hpos : (runCalls (numText num) (historyCalls history count)
        (jsonInit buf buf.length)).pos + 20 ≥ buf.length := by
      rw [runCalls_eq] at herror ⊢
      exact writeAll_full _ (callTokens_short _ _ (historyCalls_short history count)) rfl herror
    omega

end

/-! ## The snapshots that are stored -/

/-- Snapshots that have all been stored, with their times. -/
def stored (pushes : List (Bytes × Int64)) : List RingbufOp :=
  pushes.map fun p => .push p.1 true p.2

theorem sinceClear_stored (pushes : List (Bytes × Int64)) :
    sinceClear (stored pushes) = pushes.map fun p => pushed p.1 p.2 := by
  induction pushes using List.reverseRecOn with
  | nil => rfl
  | append_singleton pushes p ih =>
    rw [stored, List.map_append, sinceClear, List.foldl_append, ← sinceClear, ← stored, ih,
      List.map_append]
    rfl

theorem askedTimes_length (capacity : Nat) (pushes : List (Bytes × Int64)) (count : Int32) :
    (askedTimes capacity pushes count).length =
      min count.toInt.toNat (min capacity pushes.length) := by
  simp [askedTimes]

theorem stored_holds {capacity : Nat} (hpos : 1 ≤ capacity) (hmax : capacity < 2 ^ 31)
    (pushes : List (Bytes × Int64)) :
    ∃ history, ringbufRun capacity (stored pushes) = some history ∧
      history.Holds capacity (pushes.map fun p => pushed p.1 p.2) := by
  rw [← sinceClear_stored]
  refine ringbufRun_holds hpos hmax _ fun op hop => ?_
  obtain ⟨p, -, rfl⟩ := List.mem_map.1 hop
  rfl

section

variable {capacity : Nat} {pushes : List (Bytes × Int64)} {history : Ringbuf} {count : Int32}

theorem historyTurns_eq (h : history.Holds capacity (pushes.map fun p => pushed p.1 p.2))
    (hcount : 0 ≤ count) :
    historyTurns history count = (askedTimes capacity pushes count).length := by
  have hheld := h.counts.count_eq
  have hnonneg : (0 : Int) ≤ count.toInt := Int32.le_iff_toInt_le.1 hcount
  rw [List.length_map] at hheld
  rw [historyTurns, askedTimes_length, ringbufCount]
  split <;> omega

/-- The entries that the loop finds, where the sum in `ringbuf_get_recent` is an `int`. -/
theorem historyEntry_eq (hpos : 1 ≤ capacity)
    (h : history.Holds capacity (pushes.map fun p => pushed p.1 p.2))
    (hfits : history.head + capacity ≤ 2 ^ 31) {i : Nat} {t : Int64}
    (ht : (askedTimes capacity pushes count)[i]? = some t) :
    Emits (historyEntry history i : List (JsonCall ℚ)) (entryTree (t, i)) := by
  have hlt := (List.getElem?_eq_some_iff.1 ht).1
  have hheld := h.counts.count_eq
  rw [askedTimes_length] at hlt
  rw [List.length_map] at hheld
  rw [askedTimes, List.getElem?_take_of_lt (by omega), List.getElem?_take_of_lt (by omega),
    ← List.map_reverse, List.getElem?_map, Option.map_eq_some_iff] at ht
  obtain ⟨p, hp, rfl⟩ := ht
  have hrecent := (h.recent_of_fits hpos hfits (i := i) (by omega)).2
  rw [← List.map_reverse, List.getElem?_map, hp, Option.map_some] at hrecent
  rw [historyEntry, hrecent]
  exact emits_objectCalls rfl

/-- What the callback writes. -/
theorem historyCalls_emits (hpos : 1 ≤ capacity)
    (h : history.Holds capacity (pushes.map fun p => pushed p.1 p.2)) (hcount : 0 ≤ count)
    (hfits : askedTimes capacity pushes count = [] ∨ history.head + capacity ≤ 2 ^ 31) :
    Emits (historyCalls history count : List (JsonCall ℚ))
      (historyTree (askedTimes capacity pushes count)) := by
  refine emits_objectCalls ?_
  rw [List.flatten_singleton]
  refine EmitsMembers.member (.lit "history") (emits_arrayCalls ?_)
  have hrange : List.range (historyTurns history count) =
      (askedTimes capacity pushes count).zipIdx.map Prod.snd := by
    rw [historyTurns_eq h hcount, List.zipIdx_map_snd, List.range_eq_range']
  rw [hrange, List.forall₂_map_left_iff, List.forall₂_map_right_iff]
  refine List.forall₂_same.2 fun e he => ?_
  have ht := List.mem_zipIdx_iff_getElem?.1 he
  rcases hfits with hnone | hfits
  · rw [hnone] at ht
    exact absurd ht (by simp)
  · exact historyEntry_eq hpos h hfits ht

/-- Every turn of the loop is defined, or the first is not. -/
theorem historyDefined_iff (hpos : 1 ≤ capacity) (hmax : capacity < 2 ^ 31)
    (h : history.Holds capacity (pushes.map fun p => pushed p.1 p.2)) (hcount : 0 ≤ count) :
    HistoryDefined history count ↔
      askedTimes capacity pushes count = [] ∨ history.head + capacity ≤ 2 ^ 31 := by
  have hturns := historyTurns_eq h hcount
  have hheld : historyTurns history count ≤ history.count := by
    rw [historyTurns, ringbufCount]
    split <;> omega
  by_cases hfits : history.head + capacity ≤ 2 ^ 31
  · simp only [hfits, or_true, iff_true]
    intro i hi
    exact (h.recent_of_fits hpos hfits (by omega)).1
  · simp only [hfits, or_false]
    refine ⟨fun hdefined => ?_, fun hnone i hi => ?_⟩
    · by_contra hsome
      have hlength := List.length_pos_iff.2 hsome
      have hfirst := hdefined 0 (by omega)
      rw [Nat.cast_zero, h.counts.recent_slot_overflow hpos hmax (by omega) (by omega)] at hfirst
      exact absurd hfirst (by simp)
    · rw [hturns, hnone] at hi
      exact absurd hi (Nat.not_lt_zero i)

end

/-! ## What the client gets -/

theorem historyCount_request (type : UInt16) (count : Int32) :
    historyCount (MsgHeader.init type 4) ((leBytes 4 count.toUInt32.toNat).take 4) = count := by
  have hsplit : (leBytes 4 count.toUInt32.toNat).take 4 = leBytes 4 count.toUInt32.toNat :=
    List.take_of_length_le (by rw [leBytes_length])
  have hcopy : memcpy (leBytes 4 10) 0 (leBytes 4 count.toUInt32.toNat) =
      leBytes 4 count.toUInt32.toNat := by
    simp [memcpy]
  have hread : leNat (leBytes 4 count.toUInt32.toNat) = count.toUInt32.toNat := by
    rw [leNat_leBytes]
    exact Nat.mod_eq_of_lt count.toUInt32.toNat_lt
  have hlength : (MsgHeader.init type 4).length.toNat = 4 := rfl
  rw [historyCount]
  simp only [hlength, le_refl, if_true, hsplit, hcopy, hread]
  rw [Int32.ofNat]
  simp

variable {snapshotCb : Option (Option CStr)} {historyCb : Int32 → Option CStr} {count : Int32}
  {text : CStr} {stack response : Bytes}

/-- What a request for the history gets. -/
theorem clientGetHistory_eq (htext : historyCb count = some text)
    (hresponse : response.length = clientResponseSize) :
    clientGetHistory (some (handleClient snapshotCb (some historyCb) stack)) count response =
      some (payloadOf text) := by
  have hsmall : (payloadOf text).bytes.length < qmemMsgMaxSize - 16 := payloadOf_length text
  have hsizes : qmemMsgMaxSize = 262144 ∧ clientResponseSize = 262144 := ⟨rfl, rfl⟩
  obtain ⟨hpayload, hlen⟩ := putText_payload text (stack.drop MsgHeader.size)
  have hanswer : handleClient snapshotCb (some historyCb) stack
      (requestBytes .history (some (leBytes 4 count.toUInt32.toNat)) 4) =
      (MsgHeader.init ReqType.history.code (.ofNat (payloadOf text).bytes.length)).bytes ++
        (payloadOf text).bytes := by
    have hmagic : (MsgHeader.init ReqType.history.code 4).magic = qmemMsgMagic := rfl
    have hhandled : handleRequest snapshotCb (some historyCb)
        (MsgHeader.init ReqType.history.code 4)
        ((leBytes 4 count.toUInt32.toNat).take 4)
        (jsonInit (stack.drop MsgHeader.size) payloadSize) =
        putText (some text) (jsonInit (stack.drop MsgHeader.size) payloadSize) := by
      have hother : ¬ (ReqType.history.code = ReqType.status.code ∨
          ReqType.history.code = ReqType.snapshot.code) := by decide
      have htype : (MsgHeader.init ReqType.history.code 4).type = ReqType.history.code := rfl
      simp only [handleRequest, htype, if_neg hother, if_true, historyCount_request, htext]
    have hrequest : requestBytes .history (some (leBytes 4 count.toUInt32.toNat)) 4 =
        (MsgHeader.init ReqType.history.code 4).bytes ++
          (leBytes 4 count.toUInt32.toNat).take 4 := rfl
    rw [hrequest, handleClient_request hmagic, hhandled, ← hlen, ← hpayload]
    rfl
  refine doRequest_frame hanswer rfl ?_ (by omega) (by omega)
  show (UInt32.ofNat (payloadOf text).bytes.length).toNat = _
  exact UInt32.toNat_ofNat_of_lt' (by
    show _ < 2 ^ 32
    omega)

/-- What the callback returns is the right answer if the answer has room for it. -/
theorem historyRight_payloadOf (num : ℚ → NumLit) {history : Ringbuf} {times : List Int64}
    (hemits : Emits (historyCalls history count : List (JsonCall ℚ)) (historyTree times))
    (htimes : times.length < 2 ^ 63) {buf : Bytes} (hbuf : buf.length = historySize) :
    HistoryRight times (some (payloadOf (getHistoryCallback (numText num) history buf count))) ↔
      historyLength times < payloadSize := by
  have htext := getHistoryCallback_text num hemits htimes hbuf
  simp only at htext
  split at htext
  · case isTrue hfits =>
    refine iff_of_true ⟨_, rfl, ?_⟩ hfits
    rw [payloadOf, if_pos (by rw [htext.1]; exact hfits)]
    exact htext.2
  · case isFalse hlong =>
    refine iff_of_false ?_ hlong
    rintro ⟨answer, hanswer, hparse⟩
    rw [payloadOf, if_neg (Nat.not_lt.2 htext), Option.some_inj] at hanswer
    rw [← hanswer] at hparse
    cases hparse

/-- What `client_get_history` returns when the daemon has this history. -/
def historyAnswer (num : ℚ → NumLit) (snapshotCb : Option (Option CStr)) (history : Ringbuf)
    (buf stack : Bytes) (count : Int32) (response : Bytes) : Option CStr :=
  clientGetHistory
    (some (handleClient snapshotCb
      (some fun count => some (getHistoryCallback (numText num) history buf count)) stack))
    count response

/-- **A request for the history** gets the last snapshots if and only if their document is
shorter than what an answer has room for. The sum in `ringbuf_get_recent` also has to be an `int`,
if there is a snapshot to find. -/
theorem history_answered_iff (num : ℚ → NumLit) (capacity : Nat) (hpos : 1 ≤ capacity)
    (hmax : capacity < 2 ^ 31) (pushes : List (Bytes × Int64)) (count : Int32) (hcount : 0 ≤ count)
    (snapshotCb : Option (Option CStr)) (buf stack response : Bytes)
    (hbuf : buf.length = historySize) (hresponse : response.length = clientResponseSize) :
    ∃ history, ringbufRun capacity (stored pushes) = some history ∧
      (HistoryDefined history count ∧
        HistoryRight (askedTimes capacity pushes count)
          (historyAnswer num snapshotCb history buf stack count response) ↔
      historyLength (askedTimes capacity pushes count) < payloadSize ∧
        (askedTimes capacity pushes count = [] ∨
          pushes.length % capacity + capacity ≤ 2 ^ 31)) := by
  obtain ⟨history, hrun, hholds⟩ := stored_holds hpos hmax pushes
  refine ⟨history, hrun, ?_⟩
  have hhead : history.head = pushes.length % capacity := by
    rw [hholds.counts.head_eq, List.length_map]
  have htimes : (askedTimes capacity pushes count).length < 2 ^ 63 := by
    rw [askedTimes_length]
    omega
  rw [historyAnswer, clientGetHistory_eq rfl hresponse, historyDefined_iff hpos hmax hholds hcount,
    hhead, and_comm]
  refine and_congr_left fun hfits => ?_
  rw [← hhead] at hfits
  exact historyRight_payloadOf num (historyCalls_emits hpos hholds hcount hfits) htimes hbuf

/-- Two of three snapshots. -/
theorem history_answered_iff_two :
    ∃ history, ringbufRun 8 (stored [([0x7b, 0x7d], 100), ([0x7b, 0x7d], 105), ([0x7b, 0x7d], 110)]) =
        some history ∧
      HistoryDefined history 2 ∧
      HistoryRight [110, 105] (historyAnswer (fun _ => NumLit.ofInt 0) none history
        (List.replicate historySize 0) [] 2 (List.replicate clientResponseSize 0)) := by
  obtain ⟨history, hrun, hiff⟩ := history_answered_iff (fun _ => NumLit.ofInt 0) 8 (by decide)
    (by decide) [([0x7b, 0x7d], 100), ([0x7b, 0x7d], 105), ([0x7b, 0x7d], 110)] 2 (by decide) none
    (List.replicate historySize 0) [] (List.replicate clientResponseSize 0)
    List.length_replicate List.length_replicate
  exact ⟨history, hrun, hiff.2 (by decide)⟩

/-! ## A longer history -/

theorem historyLength_ge (times : List Int64) : 13 + 26 * times.length ≤ historyLength times := by
  have hentry (e : Int64 × Nat) :
      26 ≤ 24 + (decInt e.1.toInt).length + (decNat e.2).length := by
    have htimestamp := List.length_pos_iff.2 (decInt_ne_nil e.1.toInt)
    have hindex := List.length_pos_iff.2 (decNat_ne_nil e.2)
    omega
  have hsum := List.card_nsmul_le_sum
    (times.zipIdx.map fun e => 24 + (decInt e.1.toInt).length + (decNat e.2).length) 26
    (fun n hn => by
      obtain ⟨e, -, rfl⟩ := List.mem_map.1 hn
      exact hentry e)
  rw [List.length_map, List.length_zipIdx, smul_eq_mul] at hsum
  rw [historyLength]
  omega

/-- All of eleven thousand snapshots: the client gets an empty text. -/
theorem long_history_dropped :
    ∃ history, ringbufRun 11000 (stored (List.replicate 11000 ([0x7b, 0x7d], 1700000000))) =
        some history ∧
      ¬ HistoryRight (askedTimes 11000 (List.replicate 11000 ([0x7b, 0x7d], 1700000000)) 11000)
        (historyAnswer (fun _ => NumLit.ofInt 0) none history (List.replicate historySize 0) []
          11000 (List.replicate clientResponseSize 0)) := by
  set pushes : List (Bytes × Int64) := List.replicate 11000 ([0x7b, 0x7d], 1700000000)
    with hpushes
  have hlength : pushes.length = 11000 := List.length_replicate
  obtain ⟨history, hrun, hholds⟩ := stored_holds (show 1 ≤ 11000 by decide) (by decide) pushes
  refine ⟨history, hrun, ?_⟩
  have hasked : (askedTimes 11000 pushes 11000).length = 11000 := by
    rw [askedTimes_length, hlength]
    rfl
  have hfits : history.head + 11000 ≤ 2 ^ 31 := by
    rw [hholds.counts.head_eq, List.length_map, hlength]
    decide
  have hlong := historyLength_ge (askedTimes 11000 pushes 11000)
  have hroom : payloadSize = 262128 := rfl
  rw [historyAnswer, clientGetHistory_eq rfl List.length_replicate, historyRight_payloadOf _
    (historyCalls_emits (by decide) hholds (by decide) (.inr hfits)) (by omega)
    List.length_replicate]
  omega

end Qmem
