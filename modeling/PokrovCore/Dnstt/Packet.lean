import PokrovCore.Foundations.Base32
import PokrovCore.Foundations.Wire

/-!
# Dnstt/Packet — packets in the names of queries, and frames in the texts of answers

Upstream, a packet travels in the labels of a question: the identity of the client, some padding and
the packet, in base 32, cut into labels before those of the domain.  `readName` is the other side: it
reads the labels back into the identity and the packets.  Downstream, the text of an answer is a
sequence of frames behind their lengths, and the loop of `recvLoop` takes the frames that are there.
-/

namespace PokrovCore.Dnstt

open Base32 Wire

/-! ## Messages -/

/-- A name: its labels. -/
abbrev Name := List (List UInt8)

/-- **`dns.NewName`**: labels of 1 to 63 bytes, and at most 255 bytes with their lengths. -/
def newName (labels : Name) : Option Name :=
  if (∀ label ∈ labels, 1 ≤ label.length ∧ label.length ≤ 63) ∧
      (labels.map (·.length + 1)).sum + 1 ≤ 255 then some labels
  else none

/-- `Name.TrimSuffix`: the labels before those of a suffix, whatever the case of its letters. -/
def trimSuffix (name suffix : Name) : Option Name :=
  if name.length < suffix.length then none
  else
    let head := name.take (name.length - suffix.length)
    let tail := name.drop (name.length - suffix.length)
    if tail.map (·.map toLower) = suffix.map (·.map toLower) then some head else none

structure Question where
  name : Name
  type : ℕ
  cls : ℕ
  deriving DecidableEq

structure RR where
  name : Name
  type : ℕ
  cls : ℕ
  ttl : ℕ
  data : List UInt8
  deriving DecidableEq

structure Message where
  id : ℕ
  flags : BitVec 16
  question : List Question
  answer : List RR
  authority : List RR
  additional : List RR
  deriving DecidableEq

def rrTypeTXT : ℕ := 16
def rrTypeOPT : ℕ := 41
def classIN : ℕ := 1

/-! ## Queries -/

/-- The identity of a client. -/
abbrev ClientID := Vector UInt8 8

/-- The number of padding bytes before a packet. -/
def paddingOf (packet : List UInt8) : ℕ := if packet.length = 0 then 8 else 3

/-- What a query carries. -/
def queryPayload (packet : List UInt8) (id : ClientID) (padding : List UInt8) : List UInt8 :=
  id.toList ++ [UInt8.ofNat (224 + padding.length)] ++ padding ++
    if 0 < packet.length then UInt8.ofNat packet.length :: packet else []

/-- The loop that cuts a text into labels; a turn takes at least a byte. -/
def cutLabels : ℕ → List UInt8 → Name
  | 0, _ => []
  | n + 1, encoded =>
    if 0 < encoded.length then
      encoded.take (min 63 encoded.length) :: cutLabels n (encoded.drop (min 63 encoded.length))
    else []

/-- The labels of a payload. -/
def payloadLabels (payload : List UInt8) : Name :=
  let encoded := (encode payload).map toLower
  cutLabels encoded.length encoded

/-- The message of a query; `padding` and `queryID` are drawn at random, if they can be. -/
def queryMessage (packet : List UInt8) (id : ClientID) (domain : Name)
    (padding : (n : ℕ) → Option (Vector UInt8 n)) (queryID : Option (Vector UInt8 2)) :
    Option Message :=
  if 224 ≤ packet.length then none
  else
    (padding (paddingOf packet)).bind fun padding =>
      (newName (payloadLabels (queryPayload packet id padding.toList) ++ domain)).bind fun name =>
        queryID.map fun queryID =>
          { id := natBE queryID.toList
            flags := 0x0100
            question := [⟨name, rrTypeTXT, classIN⟩]
            answer := []
            authority := []
            additional := [⟨[], rrTypeOPT, 4096, 0, []⟩] }

/-- **`encodeQuery`.**  The wire format of messages is that of the package. -/
def encodeQuery (wireFormat : Message → Option (List UInt8)) (packet : List UInt8) (id : ClientID)
    (domain : Name) (padding : (n : ℕ) → Option (Vector UInt8 n))
    (queryID : Option (Vector UInt8 2)) : Option (List UInt8) :=
  (queryMessage packet id domain padding queryID).bind wireFormat

/-! ## The other side of a query -/

/-- Chunks: padding to be skipped, or a packet behind its length. -/
def readChunks : ℕ → List UInt8 → Option (List (List UInt8))
  | _, [] => some []
  | 0, _ :: _ => none
  | n + 1, p :: rest =>
    if 224 ≤ p.toNat then
      if rest.length < p.toNat - 224 then none else readChunks n (rest.drop (p.toNat - 224))
    else if rest.length < p.toNat then none
    else (readChunks n (rest.drop p.toNat)).map (rest.take p.toNat :: ·)

/-- **What the name of a question says**: the identity of the client, and its packets. -/
def readName (domain name : Name) : Option (List UInt8 × List (List UInt8)) :=
  (trimSuffix name domain).bind fun labels =>
    (decode (labels.flatten.map toUpper)).bind fun payload =>
      if payload.length < 8 then none
      else (readChunks payload.length (payload.drop 8)).map (payload.take 8, ·)

/-! ## Answers -/

/-- What the receiving loop writes: the packets that came in, and the tokens of its poll channel. -/
structure Queue where
  incoming : List (List UInt8)
  poll : ℕ
  deriving DecidableEq

/-- The capacity of the poll channel. -/
def pollCapacity : ℕ := 16

/-- A frame is queued, and a token is sent unless the channel is full. -/
def Queue.push (q : Queue) (frame : List UInt8) : Queue where
  incoming := q.incoming ++ [frame]
  poll := if q.poll < pollCapacity then q.poll + 1 else q.poll

/-- The inner loop of `recvLoop`; a turn takes at least two bytes. -/
def recvFrames : ℕ → List UInt8 → Queue → Queue
  | n + 1, a :: b :: payload, q =>
    let size := nat16 a b
    if payload.length < size then q
    else recvFrames n (payload.drop size) (q.push (payload.take size))
  | _, _, q => q

/-- **An iteration of `recvLoop`**, from what the package reads off a datagram. -/
def receive (decodeRDataTXT : List UInt8 → Option (List UInt8)) (domain : Name)
    (response : Option Message) (q : Queue) : Queue :=
  match response with
  | none => q
  | some response =>
    if response.flags &&& 0x800f ≠ 0x8000 then q
    else
      match response.answer with
      | [answer] =>
        if (trimSuffix answer.name domain).isNone ∨ answer.type ≠ rrTypeTXT then q
        else
          match decodeRDataTXT answer.data with
          | none => q
          | some payload => recvFrames payload.length payload q
      | _ => q

/-! ## Upstream -/

section upstream

variable {packet padding encoded : List UInt8} {id : ClientID} {domain name : Name}

/-- The labels are the text, in pieces of 1 to 63 bytes. -/
theorem cutLabels_spec : ∀ {n : ℕ} {encoded : List UInt8}, encoded.length ≤ n →
    (cutLabels n encoded).flatten = encoded ∧
      ∀ label ∈ cutLabels n encoded, 1 ≤ label.length ∧ label.length ≤ 63
  | 0, encoded, h => by
    rw [List.length_eq_zero_iff.mp (Nat.le_zero.mp h)]
    simp [cutLabels]
  | n + 1, encoded, h => by
    unfold cutLabels
    split
    · rename_i hpos
      have hrest : (encoded.drop (min 63 encoded.length)).length ≤ n := by
        rw [List.length_drop]
        omega
      obtain ⟨hflat, hlabels⟩ := cutLabels_spec hrest
      refine ⟨?_, List.forall_mem_cons.mpr ⟨?_, hlabels⟩⟩
      · rw [List.flatten_cons, hflat, List.take_append_drop]
      · rw [List.length_take]
        omega
    · rename_i hpos
      rw [List.length_eq_zero_iff.mp (Nat.eq_zero_of_not_pos hpos)]
      simp

theorem trimSuffix_append (head domain : Name) : trimSuffix (head ++ domain) domain = some head := by
  have hlen : (head ++ domain).length - domain.length = head.length := by simp
  rw [trimSuffix, if_neg (by simp), hlen]
  simp

/-- The chunks of a payload: the padding is skipped, and the packet is read. -/
theorem readChunks_payload {n : ℕ} (hpacket : packet.length < 224) (hpadding : padding.length < 32) :
    readChunks (n + 2) (UInt8.ofNat (224 + padding.length) :: padding ++
        if 0 < packet.length then UInt8.ofNat packet.length :: packet else []) =
      some (if packet = [] then [] else [packet]) := by
  have hsize : UInt8.size = 256 := rfl
  have hpad : (UInt8.ofNat (224 + padding.length)).toNat = 224 + padding.length :=
    UInt8.toNat_ofNat_of_lt' (by omega)
  have hlen : (UInt8.ofNat packet.length).toNat = packet.length :=
    UInt8.toNat_ofNat_of_lt' (by omega)
  rw [List.cons_append, readChunks, hpad, if_pos (by omega), Nat.add_sub_cancel_left,
    if_neg (by simp), List.drop_left]
  cases packet with
  | nil => simp [readChunks]
  | cons b packet =>
    rw [if_pos (by simp), readChunks, hlen, if_neg (by omega), if_neg (by simp), List.drop_length,
      List.take_length, readChunks]
    simp

/-- **The name of a payload is read back.** -/
theorem readName_payload (hpacket : packet.length < 224) (hpadding : padding.length < 32) :
    readName domain (payloadLabels (queryPayload packet id padding) ++ domain) =
      some (id.toList, if packet = [] then [] else [packet]) := by
  have hlabels := (@cutLabels_spec _ ((encode (queryPayload packet id padding)).map toLower) le_rfl).1
  have hid : id.toList.length = 8 := id.length_toList
  have hpayload : queryPayload packet id padding = id.toList ++
      (UInt8.ofNat (224 + padding.length) :: padding ++
        if 0 < packet.length then UInt8.ofNat packet.length :: packet else []) := by
    rw [queryPayload]
    simp
  obtain ⟨n, hn⟩ : ∃ n, (queryPayload packet id padding).length = n + 2 :=
    ⟨(queryPayload packet id padding).length - 2, by rw [hpayload]; simp; omega⟩
  rw [readName, trimSuffix_append, Option.bind_some, payloadLabels, hlabels,
    decode_toUpper_toLower, Option.bind_some, if_neg (by rw [hpayload]; simp), hn, hpayload,
    List.drop_left' hid, List.take_left' hid, readChunks_payload hpacket hpadding]
  rfl

/-- **A query that is made has a name of good labels, which is read back.** -/
theorem queryMessage_spec {pad : (n : ℕ) → Option (Vector UInt8 n)}
    {queryID : Option (Vector UInt8 2)} {message : Message}
    (h : queryMessage packet id domain pad queryID = some message) :
    ∃ name, message.question = [⟨name, rrTypeTXT, classIN⟩] ∧
      (∀ label ∈ name, 1 ≤ label.length ∧ label.length ≤ 63) ∧
      readName domain name = some (id.toList, if packet = [] then [] else [packet]) := by
  obtain ⟨hpacket, h⟩ := Option.ite_none_left_eq_some.mp h
  obtain ⟨padding, -, h⟩ := Option.bind_eq_some_iff.mp h
  obtain ⟨name, hname, h⟩ := Option.bind_eq_some_iff.mp h
  obtain ⟨queryID, -, rfl⟩ := Option.map_eq_some_iff.mp h
  obtain ⟨⟨hlabels, -⟩, hname⟩ := Option.ite_none_right_eq_some.mp hname
  obtain rfl := Option.some.inj hname
  have hpadding : padding.toList.length < 32 := by
    rw [Vector.length_toList, paddingOf]
    split <;> omega
  exact ⟨_, rfl, hlabels, readName_payload (Nat.lt_of_not_le hpacket) hpadding⟩

end upstream

/-! ## Downstream -/

/-- A frame behind its length. -/
def writeFrame (frame : List UInt8) : List UInt8 := bytes16 frame.length ++ frame

/-- **The loop queues the frames that read**, each as a value behind a length of two bytes. -/
theorem recvFrames_incoming : ∀ (n : ℕ) (payload : List UInt8) (q : Queue),
    (recvFrames n payload q).incoming =
      q.incoming ++ (Codec.vec16.many n payload).map Subtype.val
  | 0, payload, q => by simp [recvFrames, Codec.many]
  | n + 1, [], q => by simp [recvFrames, Codec.many, Codec.vec16]
  | n + 1, [a], q => by simp [recvFrames, Codec.many, Codec.vec16]
  | n + 1, a :: b :: payload, q => by
    rw [recvFrames]
    by_cases hsize : payload.length < nat16 a b
    · have hread : Codec.vec16.read (a :: b :: payload) = none := by
        simp [Codec.vec16, Codec.fixed, hsize]
      rw [if_pos hsize, Codec.many, hread]
      simp
    · have hread : (Codec.vec16.read (a :: b :: payload)).map (fun p => (p.1.1, p.2)) =
          some (payload.take (nat16 a b), payload.drop (nat16 a b)) := by
        simp [Codec.vec16, Codec.fixed, Nat.le_of_not_lt hsize]
      obtain ⟨⟨v, r⟩, hv, hvr⟩ := Option.map_eq_some_iff.mp hread
      obtain ⟨hval, hrest⟩ := Prod.mk.inj hvr
      rw [if_neg hsize, recvFrames_incoming n, Codec.many, hv]
      dsimp only at hval hrest
      simp [Queue.push, hval, hrest]

/-- A frame is shorter than 65536 bytes. -/
abbrev Frame := {v : List UInt8 // v.length < 65536}

theorem vec16_write_ne_nil (a : Frame) : Codec.vec16.write a ≠ [] := by
  simp [Codec.vec16, bytes16]

variable {frames : List (List UInt8)}

theorem exists_frames (hframes : ∀ f ∈ frames, f.length < 65536) :
    ∃ items : List Frame, items.map Subtype.val = frames :=
  ⟨frames.attachWith _ hframes, List.attachWith_map_subtype_val _⟩

theorem flatMap_writeFrame (items : List Frame) :
    (items.map Subtype.val).flatMap writeFrame = items.flatMap Codec.vec16.write :=
  List.flatMap_map ..

/-- **From the bytes of frames the loop queues the frames.** -/
theorem recvFrames_flatMap (hframes : ∀ f ∈ frames, f.length < 65536) (q : Queue) :
    (recvFrames (frames.flatMap writeFrame).length (frames.flatMap writeFrame) q).incoming =
      q.incoming ++ frames := by
  obtain ⟨items, rfl⟩ := exists_frames hframes
  rw [recvFrames_incoming, flatMap_writeFrame, Codec.many_flatMap vec16_write_ne_nil le_rfl]

/-- **From a beginning of the frames' bytes the loop queues exactly the complete frames.** -/
theorem recvFrames_of_prefix (hframes : ∀ f ∈ frames, f.length < 65536) {payload : List UInt8}
    (hpre : payload <+: frames.flatMap writeFrame) (q : Queue) :
    ∃ k ≤ frames.length,
      (recvFrames payload.length payload q).incoming = q.incoming ++ frames.take k ∧
      (frames.take k).flatMap writeFrame <+: payload ∧
      (k < frames.length →
        payload.length < ((frames.take (k + 1)).flatMap writeFrame).length) := by
  obtain ⟨items, rfl⟩ := exists_frames hframes
  rw [flatMap_writeFrame] at hpre
  obtain ⟨k, hk, hmany, hcomplete, hnext⟩ := Codec.many_of_prefix vec16_write_ne_nil hpre le_rfl
  refine ⟨k, by rwa [List.length_map], ?_, ?_, fun hlt => ?_⟩
  · rw [recvFrames_incoming, hmany, List.map_take]
  · rw [← List.map_take, flatMap_writeFrame]
    exact hcomplete
  · rw [← List.map_take, flatMap_writeFrame]
    exact hnext (by rwa [List.length_map] at hlt)

/-- **The framing round-trips in both directions.**
* Whatever query is made, its question has labels of 1 to 63 bytes, and reading its name gives the
  identity of the client and the packet, or no packet where it is empty.
* From the bytes of frames the loop queues the frames in their order, and from a beginning of the
  bytes exactly the frames that are complete in it. -/
theorem framing_round_trips :
    (∀ wireFormat packet id domain padding queryID wire,
      encodeQuery wireFormat packet id domain padding queryID = some wire →
      ∃ message name, wireFormat message = some wire ∧
        message.question = [⟨name, rrTypeTXT, classIN⟩] ∧
        (∀ label ∈ name, 1 ≤ label.length ∧ label.length ≤ 63) ∧
        readName domain name = some (id.toList, if packet = [] then [] else [packet])) ∧
    (∀ frames : List (List UInt8), (∀ f ∈ frames, f.length < 65536) → ∀ q : Queue,
      (recvFrames (frames.flatMap writeFrame).length (frames.flatMap writeFrame) q).incoming =
          q.incoming ++ frames ∧
        ∀ payload, payload <+: frames.flatMap writeFrame → ∃ k ≤ frames.length,
          (recvFrames payload.length payload q).incoming = q.incoming ++ frames.take k ∧
          (frames.take k).flatMap writeFrame <+: payload ∧
          (k < frames.length →
            payload.length < ((frames.take (k + 1)).flatMap writeFrame).length)) := by
  refine ⟨fun wireFormat packet id domain padding queryID wire h => ?_, fun frames hframes q =>
    ⟨recvFrames_flatMap hframes q, fun payload hpre => recvFrames_of_prefix hframes hpre q⟩⟩
  obtain ⟨message, hmessage, hwire⟩ := Option.bind_eq_some_iff.mp h
  obtain ⟨name, hquestion, hlabels, hread⟩ := queryMessage_spec hmessage
  exact ⟨message, name, hwire, hquestion, hlabels, hread⟩

/-- A wire format that writes the labels of the question one after another. -/
def sampleWireFormat (message : Message) : Option (List UInt8) :=
  some (message.question.flatMap (·.name.flatten))

/-- A packet of two bytes under the domain `d`, and two frames of a byte. -/
theorem framing_round_trips_sample :
    (∃ message name wire,
      encodeQuery sampleWireFormat [1, 2] (Vector.replicate 8 7) [[100]]
        (fun n => some (Vector.replicate n 0)) (some (Vector.replicate 2 0)) = some wire ∧
      sampleWireFormat message = some wire ∧ readName [[100]] name =
        some ((Vector.replicate 8 (7 : UInt8)).toList, [[1, 2]])) ∧
    (recvFrames 6 [0, 1, 9, 0, 1, 8] ⟨[], 0⟩).incoming = [[9], [8]] := by
  have hencode : (encodeQuery sampleWireFormat [1, 2] (Vector.replicate 8 7) [[100]]
      (fun n => some (Vector.replicate n 0)) (some (Vector.replicate 2 0))).isSome = true := by
    decide +kernel
  obtain ⟨wire, hwire⟩ := Option.isSome_iff_exists.mp hencode
  obtain ⟨message, name, hmessage, -, -, hread⟩ :=
    framing_round_trips.1 sampleWireFormat [1, 2] (Vector.replicate 8 7) [[100]] _ _ wire hwire
  exact ⟨⟨message, name, wire, hwire, hmessage, hread⟩,
    (framing_round_trips.2 [[9], [8]] (by decide) ⟨[], 0⟩).1⟩

end PokrovCore.Dnstt
