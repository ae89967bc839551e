import Testbed.Mica.Bursts

/-! # Responses

What the server answers to a burst, and what it does with the packets.  The answers to the requests
that were retired fall into batches, one for each packet with requests, and each batch is a packet
that was handed to the endpoint.

Each packet with requests is answered by one packet, with one answer for each request, in order
(`process_responds`).  Each packet of a burst is given back to the network once if and only if all
are valid request packets (`released_once_iff`): a packet that is not is dropped and never released.
-/
namespace Testbed.Mica

open Lib
open RequestBatchReader
open PacketBuffer List Nat

namespace ServerAccessor
variable {cfg : ServerConfig}

/-! ## Answers in a packet -/

/-- The answers are written one after another. -/
def AnswersFrom (buf : PacketBuffer) : Nat → List (ParsedRequest × Outcome) → Prop
  | _, [] => True
  | h, x :: rest => AnswerAt buf h x.1 x.2 ∧ AnswersFrom buf (h + answerLength x.2) rest

/-- Where the answers end. -/
def endOfAnswers (h : Nat) (outcomes : List Outcome) : Nat := h + (outcomes.map answerLength).sum

section Answers
variable {buf buf' : PacketBuffer} {h : Nat} {pr : ParsedRequest} {outcome : Outcome}
  {l : List (ParsedRequest × Outcome)}

theorem endOfAnswers_cons (outcomes : List Outcome) :
    endOfAnswers h (outcome :: outcomes) = endOfAnswers (h + answerLength outcome) outcomes := by
  unfold endOfAnswers
  rw [map_cons, sum_cons, add_assoc]

theorem endOfAnswers_concat (outcomes : List Outcome) :
    endOfAnswers h (outcomes ++ [outcome]) = endOfAnswers h outcomes + answerLength outcome := by
  unfold endOfAnswers
  rw [map_append, sum_append_nat, map_singleton, sum_singleton, add_assoc]

theorem le_endOfAnswers (h : Nat) (outcomes : List Outcome) : h ≤ endOfAnswers h outcomes :=
  le_add_right _ _

theorem header_le_answerLength (outcome : Outcome) : sizeofRequestHeader ≤ answerLength outcome :=
  le_add_right _ _

theorem AnswersFrom.congr (hanswers : AnswersFrom buf h l)
    (hsame : ∀ x, h ≤ x → x < endOfAnswers h (l.map Prod.snd) → buf'.data x = buf.data x) :
    AnswersFrom buf' h l := by
  induction l generalizing h with
  | nil => trivial
  | cons x rest ih =>
    rw [map_cons, endOfAnswers_cons] at hsame
    have hend := le_endOfAnswers (h + answerLength x.2) (rest.map Prod.snd)
    have hheader := header_le_answerLength x.2
    exact ⟨HeaderAt.congr hanswers.1 fun y hy hy' => hsame y hy (by omega),
      ih hanswers.2 fun y hy => hsame y (by omega)⟩

theorem AnswersFrom.concat (hanswers : AnswersFrom buf h l)
    (hlast : AnswerAt buf (endOfAnswers h (l.map Prod.snd)) pr outcome) :
    AnswersFrom buf h (l ++ [(pr, outcome)]) := by
  induction l generalizing h with
  | nil => exact ⟨hlast, trivial⟩
  | cons _ _ ih =>
    rw [map_cons, endOfAnswers_cons] at hlast
    exact ⟨hanswers.1, ih hanswers.2 hlast⟩

/-- **A builder that carries the answers.** -/
structure Carries (b : RequestBatchBuilder) (l : List (ParsedRequest × Outcome)) : Prop where
  h_eq : b.h = endOfAnswers sizeofRequestBatchHeader (l.map Prod.snd)
  answers : AnswersFrom b.buf sizeofRequestBatchHeader l
  remainingSpace_eq : b.remainingSpace = RequestBatchBuilder.kMaxValueLength

theorem carries_ofBuffer (buf : PacketBuffer) : Carries (.ofBuffer buf) [] := ⟨rfl, trivial, rfl⟩

theorem Carries.append {b b' : RequestBatchBuilder} (hcarries : Carries b l)
    (happended : Appended b pr outcome b') : Carries b' (l ++ [(pr, outcome)]) := by
  refine ⟨?_, ?_, happended.remainingSpace.trans hcarries.remainingSpace_eq⟩
  · rw [happended.h, hcarries.h_eq, map_append, map_singleton, endOfAnswers_concat]
  · refine AnswersFrom.concat (hcarries.answers.congr fun x _ hx => happended.before x ?_) ?_
    · rw [hcarries.h_eq]
      exact hx
    · rw [← hcarries.h_eq]
      exact happended.answer

/-! ## Reading the answers -/

variable {r : RequestBatchReader}

theorem lengths_of_answerAt (hanswer : AnswerAt r.buf r.header pr outcome)
    (hshort : outcome.outValueLength < 2 ^ 24) :
    r.getKeyLength = 0 ∧ r.getValueLength = outcome.outValueLength := by
  unfold RequestBatchReader.getKeyLength RequestBatchReader.getValueLength
  rw [hanswer.lengths]
  exact ⟨getKeyLength_makeKvLengthVec (by decide) hshort,
    getValueLength_makeKvLengthVec (by decide) hshort⟩

theorem requestEnd_of_answerAt (hanswer : AnswerAt r.buf r.header pr outcome)
    (hshort : outcome.outValueLength < 2 ^ 24) :
    r.requestEnd = r.header + answerLength outcome := by
  obtain ⟨hkey, hvalue⟩ := lengths_of_answerAt hanswer hshort
  unfold requestEnd answerLength
  rw [hkey, hvalue, ← add_assoc]
  rfl

/-- **The loop over the packet** finds the answers, one after another. -/
theorem forall₂_scan {fuel : Nat} (hheader : r.advance.header = h)
    (hanswers : AnswersFrom r.buf h l) (hshort : ∀ x ∈ l, x.2.outValueLength < 2 ^ 24)
    (hlength : r.buf.length = endOfAnswers h (l.map Prod.snd)) (hfuel : l.length < fuel) :
    List.Forall₂ (fun x (r' : RequestBatchReader) => AnswerAt r'.buf r'.header x.1 x.2 ∧
      x.2.outValueLength < 2 ^ 24) l (scan fuel r) := by
  induction l generalizing r h fuel with
  | nil =>
    obtain ⟨fuel, rfl⟩ := exists_eq_succ_of_ne_zero (ne_of_gt hfuel)
    have hend := findNext_of_end (hheader.trans hlength.symm)
    unfold scan
    rw [hend, if_neg Bool.false_ne_true]
    exact List.Forall₂.nil
  | cons x rest ih =>
    obtain ⟨_, rfl⟩ := exists_eq_succ_of_ne_zero (ne_of_gt (zero_lt_of_lt hfuel))
    rw [map_cons, endOfAnswers_cons] at hlength
    have hbuf := buf_advance (r := r)
    have hshort' := hshort x mem_cons_self
    have hanswer : AnswerAt r.advance.buf r.advance.header x.1 x.2 := by
      rw [hbuf, hheader]
      exact hanswers.1
    have hend := requestEnd_of_answerAt hanswer hshort'
    have hle := le_endOfAnswers (h + answerLength x.2) (rest.map Prod.snd)
    have hsize := header_le_answerLength x.2
    have hfind : r.findNext = (true, r.advance) := by
      unfold findNext
      dsimp only
      rw [hbuf, if_neg (by omega), if_neg (by omega)]
    have hnext : r.advance.advance.header = h + answerLength x.2 := by
      rw [header_advance_advance, hend, hheader]
    unfold scan
    rw [hfind, if_pos rfl]
    refine List.Forall₂.cons ⟨hanswer, hshort'⟩ (ih hnext ?_ ?_ ?_ ?_)
    · rw [hbuf]
      exact hanswers.2
    · exact fun y hy => hshort y (mem_cons_of_mem x hy)
    · rw [hbuf]
      exact hlength
    · rw [length_cons] at hfuel
      omega

end Answers

/-! ## The response to a packet -/

/-- The answer to a request, as it is read. -/
structure AnswersRequest (x : RequestBatchReader × Outcome) (r : RequestBatchReader) : Prop where
  operation : r.getOperation = x.1.getOperation
  result : Result.ofCode r.getResult = some x.2.result
  opaqueNumber : r.getOpaque = x.1.getOpaque
  keyHash : r.getKeyHash = x.1.getKeyHash
  valueLength : r.getValueLength = x.2.outValueLength

/-- **The response to a packet** goes back to where the packet came from, and it has one answer for
each request, in order. -/
structure Responds (src : PacketBuffer) (outcomes : List Outcome) (response : PacketBuffer) :
    Prop where
  isValid : (ofBuffer response).isValid = true
  isResponse : (ofBuffer response).isResponse = true
  srcMacAddr : (ofBuffer response).getSrcMacAddr = (ofBuffer src).getDestMacAddr
  destMacAddr : (ofBuffer response).getDestMacAddr = (ofBuffer src).getSrcMacAddr
  srcIpv4Addr : (ofBuffer response).getSrcIpv4Addr = (ofBuffer src).getDestIpv4Addr
  destIpv4Addr : (ofBuffer response).getDestIpv4Addr = (ofBuffer src).getSrcIpv4Addr
  srcUdpPort : (ofBuffer response).getSrcUdpPort = (ofBuffer src).getDestUdpPort
  destUdpPort : (ofBuffer response).getDestUdpPort = (ofBuffer src).getSrcUdpPort
  count : outcomes.length = (requestsOf src).length
  answers : List.Forall₂ AnswersRequest ((requestsOf src).zip outcomes) (requestsOf response)

/-- The batch with the answers fits into its buffer, whose length is a 16-bit number. -/
def Fits (outcomes : List Outcome) : Prop :=
  endOfAnswers sizeofRequestBatchHeader outcomes < 2 ^ 16

instance (outcomes : List Outcome) : Decidable (Fits outcomes) :=
  inferInstanceAs (Decidable (_ < _))

/-- The entry is for the request. -/
structure Stems (srcBuf : Nat) (q : RequestBatchReader) (pr : ParsedRequest) : Prop where
  srcBuf_eq : pr.srcBuf = srcBuf
  operation : pr.operation = q.getOperation % 2 ^ 8
  opaqueNumber : pr.opaqueNumber = q.getOpaque
  keyHash : pr.keyHash = q.getKeyHash

section Response
variable {bufs : Nat → PacketBuffer} {srcBuf : Nat} {outcomes : List Outcome}

theorem forall₂_stems (hrequest : (bufs srcBuf).isRequestPacket = true) :
    List.Forall₂ (Stems srcBuf) (requestsOf (bufs srcBuf)) (parsedPacket bufs srcBuf) := by
  rw [parsedPacket_of_isRequestPacket hrequest]
  rcases eq_nil_or_concat' (requestsOf (bufs srcBuf)) with
    hnil | ⟨qs, q, hqs⟩
  · rw [hnil]
    exact List.Forall₂.nil
  · rw [hqs, map_append, map_singleton, markedLast_concat]
    refine rel_append ?_ (List.Forall₂.cons ⟨rfl, rfl, rfl, rfl⟩ List.Forall₂.nil)
    rw [forall₂_map_right_iff, forall₂_same]
    exact fun _ _ => ⟨rfl, rfl, rfl, rfl⟩

theorem answersRequest_of_stems {q : RequestBatchReader} {pr : ParsedRequest} {outcome : Outcome}
    (hstems : Stems srcBuf q pr) (hanswer : AnswerAt r.buf r.header pr outcome)
    (hshort : outcome.outValueLength < 2 ^ 24) : AnswersRequest (q, outcome) r := by
  have hoperation : q.getOperation < 256 ^ 1 := q.buf.load_lt
  have hopaque : q.getOpaque < 256 ^ 4 := q.buf.load_lt
  have hhash : q.getKeyHash < 256 ^ 8 := q.buf.load_lt
  refine ⟨hanswer.operation.trans ?_, ?_, hanswer.opaqueNumber.trans ?_, hanswer.keyHash.trans ?_,
    (lengths_of_answerAt hanswer hshort).2⟩
  · rw [hstems.operation, mod_eq_of_lt (show q.getOperation < 2 ^ 8 by omega),
      mod_eq_of_lt hoperation]
  · unfold getResult
    rw [hanswer.result, Result.ofCode_code]
  · rw [hstems.opaqueNumber, mod_eq_of_lt hopaque]
  · rw [hstems.keyHash, mod_eq_of_lt hhash]

theorem forall₂_answersRequest {qs rs : List RequestBatchReader} {prs : List ParsedRequest}
    (hstems : List.Forall₂ (Stems srcBuf) qs prs)
    (hanswers : List.Forall₂ (fun x (r : RequestBatchReader) => AnswerAt r.buf r.header x.1 x.2 ∧
      x.2.outValueLength < 2 ^ 24) (prs.zip outcomes) rs) :
    List.Forall₂ AnswersRequest (qs.zip outcomes) rs := by
  induction hstems generalizing outcomes rs with
  | nil =>
    cases hanswers
    exact List.Forall₂.nil
  | cons hstem _ ih =>
    cases outcomes with
    | nil =>
      cases hanswers
      exact List.Forall₂.nil
    | cons =>
      obtain ⟨r, _, hanswer, hrest, rfl⟩ := forall₂_cons_left_iff.mp hanswers
      exact List.Forall₂.cons (answersRequest_of_stems hstem hanswer.1 hanswer.2) (ih hrest)

/-- The packet was built from the answers. -/
def Built (bufs : Nat → PacketBuffer) (l : List (ParsedRequest × Outcome))
    (response : ResponseBuffer) : Prop :=
  ∃ b l' x, l = l' ++ [x] ∧ Carries b l ∧
    response.packet = b.finish (responseAddresses (bufs x.1.srcBuf)) true

theorem outValueLength_le_endOfAnswers {outcome : Outcome} (h : Nat) (hmem : outcome ∈ outcomes) :
    outcome.outValueLength ≤ endOfAnswers h outcomes := by
  induction outcomes generalizing h with
  | nil => cases hmem
  | cons _ rest ih =>
    rw [endOfAnswers_cons]
    rcases mem_cons.mp hmem with rfl | hmem
    · have hround := le_roundup8 outcome.outValueLength
      have hend := le_endOfAnswers (h + answerLength outcome) rest
      unfold answerLength at hend ⊢
      omega
    · exact ih _ hmem

theorem length_le_endOfAnswers (h : Nat) (outcomes : List Outcome) :
    h + outcomes.length ≤ endOfAnswers h outcomes := by
  induction outcomes generalizing h with
  | nil => exact le_refl _
  | cons first _ ih =>
    have hrest := ih (h + answerLength first)
    have hheader : 1 ≤ answerLength first := le_trans (by decide) (header_le_answerLength first)
    rw [endOfAnswers_cons, length_cons]
    omega

/-- **A packet that was built from the answers to a packet** is its response. -/
theorem responds_of_built {response : ResponseBuffer}
    (hrequest : (bufs srcBuf).isRequestPacket = true)
    (hcount : outcomes.length = (requestsOf (bufs srcBuf)).length)
    (hbuilt : Built bufs ((parsedPacket bufs srcBuf).zip outcomes) response)
    (hfits : Fits outcomes) : Responds (bufs srcBuf) outcomes response.packet := by
  have hstems := forall₂_stems hrequest
  obtain ⟨b, _, x, hl, hcarries, hpacket⟩ := hbuilt
  have houtcomes : ((parsedPacket bufs srcBuf).zip outcomes).map Prod.snd = outcomes :=
    map_snd_zip (hcount.trans hstems.length_eq).le
  have hsrcBuf : x.1.srcBuf = srcBuf := by
    have hx : x ∈ (parsedPacket bufs srcBuf).zip outcomes := by
      rw [hl]
      exact mem_append_right _ (mem_singleton_self x)
    obtain ⟨i, hi, hget⟩ := getElem_of_mem (of_mem_zip hx).1
    have hstem := (forall₂_iff_get.mp hstems).2 i (hstems.length_eq ▸ hi) hi
    exact (congrArg ParsedRequest.srcBuf hget).symm.trans hstem.srcBuf_eq
  have hh : b.h = endOfAnswers sizeofRequestBatchHeader outcomes := by
    rw [hcarries.h_eq, houtcomes]
  rw [hsrcBuf] at hpacket
  have hshort : b.h < 2 ^ 16 := hh ▸ hfits
  have hmin : sizeofRequestBatchHeader ≤ b.h := hh ▸ le_endOfAnswers _ _
  obtain ⟨hvalid, -, hresponse⟩ :=
    b.isValid_finish (responseAddresses (bufs srcBuf)) true hmin hshort
  obtain ⟨hsm, hdm, hsi, hdi, hsu, hdu⟩ := b.addresses_finish (responseAddresses (bufs srcBuf)) true
  have hlength := (b.lengths_finish (responseAddresses (bufs srcBuf)) true hshort).1
  rw [← hpacket] at hvalid hresponse hsm hdm hsi hdi hsu hdu hlength
  refine ⟨hvalid, hresponse, hsm.trans (mod_eq_of_lt (load_lt _)),
    hdm.trans (mod_eq_of_lt (load_lt _)),
    hsi.trans (mod_eq_of_lt (load_lt _)),
    hdi.trans (mod_eq_of_lt (load_lt _)),
    hsu.trans (mod_eq_of_lt (load_lt _)),
    hdu.trans (mod_eq_of_lt (load_lt _)), hcount,
    forall₂_answersRequest hstems ?_⟩
  have hanswers : AnswersFrom response.packet sizeofRequestBatchHeader
      ((parsedPacket bufs srcBuf).zip outcomes) := by
    refine hcarries.answers.congr fun y hy _ => ?_
    rw [hpacket]
    exact b.data_finish _ true (le_trans (by decide) hy)
  refine forall₂_scan (h := sizeofRequestBatchHeader) rfl hanswers (fun y hy => ?_) ?_ ?_
  · have hmem := outValueLength_le_endOfAnswers sizeofRequestBatchHeader (of_mem_zip hy).2
    omega
  · rw [houtcomes, ← hh]
    exact hlength
  · have hlong := length_le_endOfAnswers sizeofRequestBatchHeader outcomes
    rw [length_zip, ← hstems.length_eq, ← hcount, min_self, hlength, hh]
    omega

end Response

/-! ## Batches of answers -/

/-- A batch ends with the last request of a packet. -/
def gatherStep (acc : List (List (ParsedRequest × Outcome)) × List (ParsedRequest × Outcome))
    (x : ParsedRequest × Outcome) :
    List (List (ParsedRequest × Outcome)) × List (ParsedRequest × Outcome) :=
  if x.1.lastInPacket then (acc.1 ++ [acc.2 ++ [x]], []) else (acc.1, acc.2 ++ [x])

variable (l : List (ParsedRequest × Outcome))

/-- The batches that ended, and the pending one. -/
def gathered : List (List (ParsedRequest × Outcome)) × List (ParsedRequest × Outcome) :=
  l.foldl gatherStep ([], [])

theorem gathered_concat (x : ParsedRequest × Outcome) :
    gathered (l ++ [x]) = gatherStep (gathered l) x := by
  unfold gathered
  rw [foldl_append]
  rfl

variable (bufs : Nat → PacketBuffer)

/-- The packets of a burst with requests. -/
def requestPackets (packetCount : Nat) : List Nat :=
  (List.range packetCount).filter fun srcBuf =>
    (bufs srcBuf).isRequestPacket && !(requestsOf (bufs srcBuf)).isEmpty

/-- Each of the packets, with the outcomes of its requests. -/
def outcomesOf (bufs : Nat → PacketBuffer) : List Nat → List Outcome → List (Nat × List Outcome)
  | [], _ => []
  | srcBuf :: rest, outcomes =>
    let count := (requestsOf (bufs srcBuf)).length
    (srcBuf, outcomes.take count) :: outcomesOf bufs rest (outcomes.drop count)

section Gather
variable {bufs : Nat → PacketBuffer} {srcBuf packetCount : Nat} {srcBufs : List Nat}
  {outcomes : List Outcome} {batches : List (List (ParsedRequest × Outcome))}

theorem length_parsedPacket (hrequest : (bufs srcBuf).isRequestPacket = true) :
    (parsedPacket bufs srcBuf).length = (requestsOf (bufs srcBuf)).length := by
  rw [parsedPacket_of_isRequestPacket hrequest, length_markedLast, length_map]

theorem parsedRequests_eq_flatMap : parsedRequests bufs packetCount =
      (requestPackets bufs packetCount).flatMap (parsedPacket bufs) := by
  unfold requestPackets parsedRequests
  induction List.range packetCount with
  | nil => rfl
  | cons srcBuf rest ih =>
    rw [flatMap_cons, filter_cons, ih]
    split
    · rw [flatMap_cons]
    · rename_i hnot
      have hnil : parsedPacket bufs srcBuf = [] := by
        cases hrequest : (bufs srcBuf).isRequestPacket with
        | false => exact parsedPacket_of_not hrequest
        | true =>
          rw [hrequest, Bool.true_and, Bool.not_eq_true', Bool.not_eq_false,
            List.isEmpty_iff] at hnot
          rw [← List.length_eq_zero_iff, length_parsedPacket hrequest, hnot, List.length_nil]
      rw [hnil, nil_append]

theorem foldl_gatherStep_of_not_last {l pending : List (ParsedRequest × Outcome)}
    (hnot : ∀ x ∈ l, x.1.lastInPacket = false) :
    l.foldl gatherStep (batches, pending) = (batches, pending ++ l) := by
  induction l generalizing pending with
  | nil => rw [foldl_nil, append_nil]
  | cons x _ ih =>
    have hstep : gatherStep (batches, pending) x = (batches, pending ++ [x]) := by
      unfold gatherStep
      rw [hnot x mem_cons_self, if_neg Bool.false_ne_true]
    rw [foldl_cons, hstep, ih fun y hy => hnot y (mem_cons_of_mem x hy),
      append_assoc, singleton_append]

/-- **The answers to a packet** are one batch. -/
theorem foldl_gatherStep_parsedPacket (hsome : parsedPacket bufs srcBuf ≠ [])
    (hcount : outcomes.length = (parsedPacket bufs srcBuf).length) :
    ((parsedPacket bufs srcBuf).zip outcomes).foldl gatherStep (batches, []) =
      (batches ++ [(parsedPacket bufs srcBuf).zip outcomes], []) := by
  obtain ⟨l, pr, hparsed, hl⟩ := exists_parsedPacket_eq_concat hsome
  rw [hparsed] at hcount ⊢
  rcases eq_nil_or_concat' outcomes with rfl | ⟨before, _, rfl⟩
  · rw [length_append, length_singleton] at hcount
    cases hcount
  · have hlength : l.length = before.length := by
      simpa using hcount.symm
    have hunmarked : ∀ x ∈ l.zip before, x.1.lastInPacket = false := by
      intro x hx
      have hmem : x.1 ∈ l ++ [pr] := mem_append_left _ (of_mem_zip hx).1
      rw [hl] at hmem
      obtain ⟨q, -, hq⟩ := mem_map.mp hmem
      rw [← hq]
      rfl
    rw [zip_append hlength, foldl_append, foldl_gatherStep_of_not_last hunmarked]
    rfl

/-- **The answers to a burst** are one batch for each packet with requests. -/
theorem foldl_gatherStep_flatMap (hsome : ∀ srcBuf ∈ srcBufs, (bufs srcBuf).isRequestPacket = true ∧
      parsedPacket bufs srcBuf ≠ [])
    (hcount : outcomes.length = (srcBufs.flatMap (parsedPacket bufs)).length) :
    ((srcBufs.flatMap (parsedPacket bufs)).zip outcomes).foldl gatherStep (batches, []) =
      (batches ++ (outcomesOf bufs srcBufs outcomes).map
        fun x => (parsedPacket bufs x.1).zip x.2, []) := by
  induction srcBufs generalizing outcomes batches with
  | nil =>
    exact congrArg (fun l => (l, [])) (append_nil _).symm
  | cons srcBuf rest ih =>
    obtain ⟨hrequest, hparsed⟩ := hsome srcBuf mem_cons_self
    have hlength := length_parsedPacket hrequest
    rw [flatMap_cons, length_append] at hcount
    have htake : (outcomes.take (parsedPacket bufs srcBuf).length).length =
        (parsedPacket bufs srcBuf).length := by
      rw [length_take]
      omega
    have hsplit : ((srcBuf :: rest).flatMap (parsedPacket bufs)).zip outcomes =
        (parsedPacket bufs srcBuf).zip (outcomes.take (parsedPacket bufs srcBuf).length) ++
          (rest.flatMap (parsedPacket bufs)).zip
            (outcomes.drop (parsedPacket bufs srcBuf).length) := by
      rw [flatMap_cons, ← zip_append htake.symm, take_append_drop]
    rw [hsplit, foldl_append, foldl_gatherStep_parsedPacket hparsed htake,
      ih (fun j hj => hsome j (mem_cons_of_mem srcBuf hj)) (by rw [length_drop]; omega)]
    rw [outcomesOf, map_cons, ← append_cons, hlength]

theorem isRequestPacket_of_mem_requestPackets (hmem : srcBuf ∈ requestPackets bufs packetCount) :
    (bufs srcBuf).isRequestPacket = true ∧ parsedPacket bufs srcBuf ≠ [] := by
  obtain ⟨-, hboth⟩ := mem_filter.mp hmem
  rw [Bool.and_eq_true, Bool.not_eq_true', isEmpty_eq_false_iff] at hboth
  refine ⟨hboth.1, fun hnil => hboth.2 ?_⟩
  rw [← length_eq_zero_iff, ← length_parsedPacket hboth.1, hnil, length_nil]

theorem length_of_mem_outcomesOf (hsome : ∀ srcBuf ∈ srcBufs, (bufs srcBuf).isRequestPacket = true)
    (hcount : outcomes.length = (srcBufs.flatMap (parsedPacket bufs)).length)
    {x : Nat × List Outcome} (hx : x ∈ outcomesOf bufs srcBufs outcomes) :
    (bufs x.1).isRequestPacket = true ∧ x.2.length = (requestsOf (bufs x.1)).length := by
  induction srcBufs generalizing outcomes with
  | nil => cases hx
  | cons srcBuf _ ih =>
    have hrequest := hsome srcBuf mem_cons_self
    rw [flatMap_cons, length_append, length_parsedPacket hrequest] at hcount
    rcases mem_cons.mp hx with rfl | hx
    · refine ⟨hrequest, length_take.trans ?_⟩
      dsimp only
      omega
    · exact ih (fun j hj => hsome j (mem_cons_of_mem srcBuf hj)) (by rw [length_drop]; omega) hx

end Gather

/-! ## Serving a burst -/

/-- The answers that were given: those of the batches that ended were handed to the endpoint, and
the pending batch carries the others. -/
structure Answering (eid : Nat) (before : List ResponseBuffer)
    (retired : List (ParsedRequest × Outcome)) (a : ServerAccessor cfg) : Prop where
  eid_eq : a.eid = eid
  handed : ∃ responses, (a.txStates eid).handed = before ++ responses ∧
    List.Forall₂ (Built bufs) (gathered retired).1 responses
  pending : Carries a.pendingResponseBatch.b (gathered retired).2

section
variable {bufs : Nat → PacketBuffer} {eid : Nat} {before : List ResponseBuffer}
  {retired : List (ParsedRequest × Outcome)} {a a' : ServerAccessor cfg}

section
variable (h : Answering bufs eid before retired a)
include h

theorem Answering.of_sameOutput
    (hsame : SameOutput a a') : Answering bufs eid before retired a' := by
  refine ⟨hsame.eid.trans h.eid_eq, ?_, ?_⟩
  · rw [hsame.txStates]
    exact h.handed
  · rw [hsame.pendingResponseBatch]
    exact h.pending

theorem Answering.remainingSpace_ne : a.pendingResponseBatch.b.remainingSpace ≠ 0 := by
  rw [h.pending.remainingSpace_eq]
  decide

/-- **One more answer.** -/
theorem Answering.answer (hbufs : a.bufs = bufs) (index : Nat) (outcome : Outcome) :
    Answering bufs eid before (retired ++ [(a.parsedRequest index, outcome)])
      (RequestAccessor.answer a index outcome) := by
  have hgather := gathered_concat retired (a.parsedRequest index, outcome)
  unfold gatherStep at hgather
  cases hlast : (a.parsedRequest index).lastInPacket with
  | false =>
    obtain ⟨batch, hanswer, -, happended⟩ :=
      a.answer_of_not_last index outcome h.remainingSpace_ne hlast
    rw [if_neg (hlast ▸ Bool.false_ne_true)] at hgather
    rw [hanswer]
    refine ⟨h.eid_eq, ?_, ?_⟩
    · rw [hgather]
      exact h.handed
    · rw [hgather]
      exact h.pending.append happended
  | true =>
    obtain ⟨_, t, hanswer, hhanded, happended⟩ := a.answer_of_last index outcome hlast
    obtain ⟨_, hbefore, hbuilt⟩ := h.handed
    rw [if_pos hlast] at hgather
    rw [h.eid_eq, hbefore, hbufs] at hhanded
    rw [hanswer]
    refine ⟨h.eid_eq, ⟨_, Eq.trans ?_ (hhanded.trans (append_assoc _ _ _)), ?_⟩, ?_⟩
    · dsimp only
      rw [h.eid_eq, Function.update_self]
    · rw [hgather]
      exact rel_append hbuilt (List.Forall₂.cons
        ⟨_, _, _, rfl, h.pending.append happended, rfl⟩ List.Forall₂.nil)
    · rw [hgather]
      exact carries_ofBuffer _

end

end

/-- **The accessor between two bursts.** -/
structure Ready (a : ServerAccessor cfg) : Prop where
  conserved : a.Conserved
  pending : Carries a.pendingResponseBatch.b []
  overwritten_eq : a.overwritten = false

/-- The requests that were answered with the outcomes. -/
def answered (packetCount : Nat) (outcomes : List Outcome) : List (ParsedRequest × Outcome) :=
  ((parsedRequests bufs packetCount).take outcomes.length).zip outcomes

/-- **The next request of a burst**, after those before it came out like this.  The buffer for its
value lies in the pending response batch, behind the answers to them. -/
def requestAfter (packetCount : Nat) (start : ServerAccessor cfg) (outcomes : List Outcome) :
    RequestData :=
  requestData ((parsedRequests bufs packetCount).getD outcomes.length default)
    ((answered bufs packetCount outcomes).foldl respond start).pendingResponseBatch.b

/-- **The accessor while a burst is served** from `start` on, after `p` calls of `prepare`. -/
structure Serving (packetCount : Nat) (start : ServerAccessor cfg) (p : Nat)
    (outcomes : List Outcome) (a : ServerAccessor cfg) : Prop where
  parsing : Parsing bufs packetCount (min p (parsedRequests bufs packetCount).length)
    outcomes.length a
  done : (parsedRequests bufs packetCount).length < p → a.nextPacketIndexToParse = packetCount
  conserved : a.Conserved
  answering : Answering bufs start.eid (start.txStates start.eid).handed
    (answered bufs packetCount outcomes) a
  batch : SameBatch ((answered bufs packetCount outcomes).foldl respond start) a

section Serving
variable {bufs : Nat → PacketBuffer} {packetCount stageGap p : Nat} {outcomes : List Outcome}
  {start a : ServerAccessor cfg}

theorem serving_setup (hready : a.Ready) (eid now : Nat) :
    Serving bufs packetCount (a.setup eid bufs packetCount now) 0 []
      (a.setup eid bufs packetCount now) := by
  have hconserved : (a.setup eid bufs packetCount now).Conserved :=
    ⟨hready.conserved.pending_lt, hready.conserved.handed_lt, hready.conserved.held,
      hready.conserved.nodup, hready.conserved.apart⟩
  refine ⟨?_, fun hlt => absurd hlt (not_lt_zero _), hconserved,
    ⟨rfl, ⟨[], (append_nil _).symm, List.Forall₂.nil⟩, hready.pending⟩, ⟨rfl, rfl, rfl⟩⟩
  exact
    { bufs_eq := rfl
      packetCount_eq := rfl
      parsed_le := zero_le _
      nextIndexToPrepare_eq := rfl
      prepared_le := le_refl _
      nextIndexToRetire_eq := rfl
      room := zero_le _
      ring := fun i pr _ hget => by cases hget
      overwritten_eq := hready.overwritten_eq
      released_perm := List.Perm.refl _ }

theorem Serving.prepare (h : Serving bufs packetCount start p outcomes a)
    (hburst : Received cfg bufs packetCount stageGap) (hr : outcomes.length ≤ p)
    (hwindow : p ≤ outcomes.length + 3 * stageGap)
    (hp : p ≤ (parsedRequests bufs packetCount).length) :
    (a.prepare p).1 = decide (p < (parsedRequests bufs packetCount).length) ∧
      Serving bufs packetCount start (p + 1) outcomes (a.prepare p).2 := by
  have hsame := sameOutput_prepare (a := a) p
  have hparsing := h.parsing
  rw [min_eq_left hp] at hparsing
  unfold ServerAccessor.prepare at hsame ⊢
  by_cases hnext : p = a.nextIndexToPrepare
  · rw [if_pos hnext] at hsame ⊢
    obtain ⟨hmore, hparsed, hdone⟩ := hparsing.parseLoop hburst hnext.symm hr hwindow
      (show packetCount < a.packetCount + 1 + a.nextPacketIndexToParse by
        rw [hparsing.packetCount_eq]
        omega)
    exact ⟨hmore, hparsed, fun hlt => hdone (by omega), h.conserved.of_sameOutput hsame,
      h.answering.of_sameOutput hsame, h.batch.trans hsame.toSameBatch⟩
  · rw [if_neg hnext] at hsame ⊢
    have hle := hparsing.prepared_le
    have htotal := (parsedRequests_isPrefix bufs hparsing.parsed_le).length_le
    rw [← hparsing.nextIndexToPrepare_eq] at htotal
    refine ⟨(decide_eq_true (by omega)).symm, ?_, fun hlt => by omega, h.conserved, h.answering,
      h.batch⟩
    exact { hparsing with
      prepared_le := (min_le_left _ _).trans (show p + 1 ≤ a.nextIndexToPrepare by omega) }

theorem Serving.retire (h : Serving bufs packetCount start p outcomes a)
    (hburst : Received cfg bufs packetCount stageGap) (hr : outcomes.length < p)
    (hn : outcomes.length < (parsedRequests bufs packetCount).length) (outcome : Outcome) :
    Serving bufs packetCount start p (outcomes ++ [outcome])
      (RequestAccessor.answer a outcomes.length outcome) := by
  have hlt : outcomes.length < min p (parsedRequests bufs packetCount).length := by omega
  have hspace := h.answering.remainingSpace_ne
  have hentry := h.parsing.entry (le_refl _) hlt
  have hlength : (outcomes ++ [outcome]).length = outcomes.length + 1 := by
    rw [length_append, length_singleton]
  have hretired : answered bufs packetCount (outcomes ++ [outcome]) =
      answered bufs packetCount outcomes ++ [(a.parsedRequest outcomes.length, outcome)] := by
    unfold answered
    rw [hlength, take_add_one, hentry, Option.toList_some, zip_append]
    · rfl
    · rw [length_take]
      omega
  refine ⟨?_, fun hdone => ?_, h.conserved.answer _ hspace outcome, ?_, ?_⟩
  · rw [hlength]
    exact h.parsing.answer hburst hlt hspace outcome
  · have hparsed := h.done hdone
    cases hlast : (a.parsedRequest outcomes.length).lastInPacket with
    | false =>
      obtain ⟨batch, hanswer, -⟩ := a.answer_of_not_last _ outcome hspace hlast
      rw [hanswer]
      exact hparsed
    | true =>
      obtain ⟨_, t, hanswer, -⟩ := a.answer_of_last _ outcome hlast
      rw [hanswer]
      exact hparsed
  · rw [hretired]
    exact h.answering.answer h.parsing.bufs_eq _ outcome
  · rw [hretired, foldl_append, answer_eq_respond]
    exact h.batch.respond _

theorem Serving.keyHash {later : List Outcome} (h : Serving bufs packetCount start p outcomes a)
    (hlater : outcomes <+: later) (hp : later.length < p)
    (hn : later.length < (parsedRequests bufs packetCount).length) :
    (a.get later.length).keyHash = (requestAfter bufs packetCount start later).keyHash := by
  have hentry := h.parsing.entry hlater.length_le (lt_min hp hn)
  unfold ServerAccessor.get requestAfter requestData
  rw [getD_eq_getElem?_getD, hentry]
  rfl

theorem Serving.get (h : Serving bufs packetCount start p outcomes a) (hp : outcomes.length < p)
    (hn : outcomes.length < (parsedRequests bufs packetCount).length) :
    a.get outcomes.length = requestAfter bufs packetCount start outcomes := by
  have hentry := h.parsing.entry (le_refl _) (lt_min hp hn)
  unfold ServerAccessor.get requestAfter
  rw [getD_eq_getElem?_getD, hentry, h.batch.pendingResponseBatch]
  rfl

/-- **The accessor supplies the requests of the burst.** -/
theorem supplies_serving (hburst : Received cfg bufs packetCount stageGap)
    (start : ServerAccessor cfg) :
    Supplies (3 * stageGap) (parsedRequests bufs packetCount).length
      (requestAfter bufs packetCount start) (Serving bufs packetCount start) where
  prepare h hr hwindow hp := h.prepare hburst hr hwindow hp
  keyHash h hlater hp hn := h.keyHash hlater hp hn
  get h hp hn := h.get hp hn
  retire h hr hn outcome := h.retire hburst hr hn outcome

section
variable {tableCfg : TableConfig} {P : Type} [Pool P]

/-- **The pipeline serves the burst**, request after request. -/
theorem process_serves (hburst : Received cfg bufs packetCount stageGap) (hready : a.Ready)
    (partitions : Partitions tableCfg P) (lcoreId : Nat) (partitionIds : Nat → Nat)
    (eid now : Nat) :
    Pipeline.Agrees (parsedRequests bufs packetCount).length
      (Serving bufs packetCount (a.setup eid bufs packetCount now))
      (partitions.process lcoreId stageGap partitionIds (a.setup eid bufs packetCount now))
      (sequential lcoreId (requestAfter bufs packetCount (a.setup eid bufs packetCount now))
        (parsedRequests bufs packetCount).length partitions) := by
  have hfew := hburst.length_parsedRequests_lt
  refine Partitions.process_agrees lcoreId hburst.stageGap_lt ?_ (supplies_serving hburst _)
    partitions partitionIds _ (serving_setup hready eid now)
  unfold kUnknownCount
  omega

theorem serving_of_process {partitions : Partitions tableCfg P} {lcoreId eid now : Nat}
    {partitionIds : Nat → Nat} {s : Pipeline tableCfg P (ServerAccessor cfg)}
    (hburst : Received cfg bufs packetCount stageGap) (hready : a.Ready)
    (hs : partitions.process lcoreId stageGap partitionIds (a.setup eid bufs packetCount now) =
      .ok s) :
    (s.retired.map Retirement.outcome).length = (parsedRequests bufs packetCount).length ∧
      Serving bufs packetCount (a.setup eid bufs packetCount now)
        ((parsedRequests bufs packetCount).length + 1) (s.retired.map Retirement.outcome)
        s.accessor := by
  have hagrees := process_serves hburst hready partitions lcoreId partitionIds eid now
  rw [hs] at hagrees
  obtain ⟨hsequential, hserving⟩ := hagrees.inv
  have hindices := congrArg List.length (retired_of_sequential hsequential).2.1
  rw [length_map, length_range] at hindices
  exact ⟨(length_map _).trans hindices, hserving⟩

end

/-! ## After a burst -/

theorem Serving.released_perm
    (h : Serving bufs packetCount start ((parsedRequests bufs packetCount).length + 1)
      outcomes a)
    (hall : outcomes.length = (parsedRequests bufs packetCount).length) :
    a.released.Perm
      ((List.range packetCount).filter fun srcBuf => (bufs srcBuf).isRequestPacket) := by
  have hperm := h.parsing.released_perm
  rw [h.done (lt_succ_self _), hall, take_length] at hperm
  exact hperm.trans releases_perm

theorem gathered_answered (hall : outcomes.length = (parsedRequests bufs packetCount).length) :
    gathered (answered bufs packetCount outcomes) =
      ((outcomesOf bufs (requestPackets bufs packetCount) outcomes).map
        fun x => (parsedPacket bufs x.1).zip x.2, []) := by
  unfold answered
  rw [hall, take_length]
  rw [parsedRequests_eq_flatMap] at hall ⊢
  exact foldl_gatherStep_flatMap
    (fun srcBuf hmem => isRequestPacket_of_mem_requestPackets hmem) hall

/-- **The responses to the burst.** -/
theorem Serving.responds (h : Serving bufs packetCount start p outcomes a)
    (hall : outcomes.length = (parsedRequests bufs packetCount).length) :
    ∃ responses, (a.txStates start.eid).handed = (start.txStates start.eid).handed ++ responses ∧
      List.Forall₂ (fun x response => Fits x.2 → Responds (bufs x.1) x.2 response.packet)
        (outcomesOf bufs (requestPackets bufs packetCount) outcomes) responses := by
  obtain ⟨responses, hhanded, hbuilt⟩ := h.answering.handed
  rw [gathered_answered hall, forall₂_map_left_iff] at hbuilt
  rw [parsedRequests_eq_flatMap] at hall
  refine ⟨responses, hhanded, (forall₂_and_left _ _ |>.mpr ⟨fun x hx =>
    length_of_mem_outcomesOf (fun srcBuf hmem => (isRequestPacket_of_mem_requestPackets hmem).1)
      hall hx, hbuilt⟩).imp ?_⟩
  rintro x _ ⟨⟨hrequest, hcount⟩, hbuilt⟩ hfits
  exact responds_of_built hrequest hcount hbuilt hfits

/-- **Ready for the next burst**: the last answer of the burst ended the last batch. -/
theorem Serving.ready (h : Serving bufs packetCount start p outcomes a)
    (hall : outcomes.length = (parsedRequests bufs packetCount).length) : a.Ready := by
  have hpending := h.answering.pending
  rw [gathered_answered hall] at hpending
  exact ⟨h.conserved, hpending, h.parsing.overwritten_eq⟩

end Serving

/-! ## Between two bursts -/

section
variable {a : ServerAccessor cfg}

theorem handed_send (eid e : Nat) : ((a.send eid).txStates e).handed = (a.txStates e).handed := by
  unfold send setTxState
  dsimp only
  by_cases he : e = eid
  · rw [he, Function.update_self]
    exact append_nil _
  · rw [Function.update_of_ne he]

theorem Ready.send (h : a.Ready) (eid : Nat) : (a.send eid).Ready :=
  ⟨h.conserved.of_handed rfl rfl (handed_send eid), h.pending, h.overwritten_eq⟩

theorem Ready.checkPendingTxMin (h : a.Ready) (eid : Nat) : (a.checkPendingTxMin eid).Ready := by
  unfold ServerAccessor.checkPendingTxMin
  split
  · exact h
  · exact h.send eid

theorem Ready.checkPendingTxTimeout (h : a.Ready) (eid now : Nat) :
    (a.checkPendingTxTimeout eid now).Ready := by
  unfold ServerAccessor.checkPendingTxTimeout
  split
  · exact h
  · split
    · exact h
    · exact h.send eid

end

/-! ## The worker -/

/-- What a worker receives from an endpoint, and what the array of partition ids holds then. -/
structure Burst where
  eid : Nat
  bufs : Nat → PacketBuffer
  packetCount : Nat
  now : Nat
  partitionIds : Nat → Nat

section Worker
variable {tableCfg : TableConfig} {P : Type} [Pool P] {lcoreId stageGap : Nat}
  {a : ServerAccessor cfg} {partitions : Partitions tableCfg P}

/-- The packets are processed if there are any. -/
def processBurst (lcoreId stageGap : Nat) (w : Partitions tableCfg P × ServerAccessor cfg)
    (burst : Burst) : Except Fault (Partitions tableCfg P × ServerAccessor cfg) :=
  if burst.packetCount > 0 then do
    let s ← w.1.process lcoreId stageGap burst.partitionIds
      (w.2.setup burst.eid burst.bufs burst.packetCount burst.now)
    return (s.partitions, s.accessor)
  else .ok w

/-- An iteration of `worker_proc`. -/
def workerStep (lcoreId stageGap : Nat) (w : Partitions tableCfg P × ServerAccessor cfg)
    (burst : Burst) : Except Fault (Partitions tableCfg P × ServerAccessor cfg) := do
  let (partitions, a) ← processBurst lcoreId stageGap w burst
  let a := a.checkPendingTxMin burst.eid
  return (partitions, a.checkPendingTxTimeout burst.eid burst.now)

theorem ready_create (cfg : ServerConfig) (buffers : Nat → PacketBuffer)
    (requests : Nat → ParsedRequest) : (create cfg buffers requests).Ready := by
  refine ⟨⟨zero_lt_one, fun eid response hmem => ?_, fun id hid => Or.inl ?_,
    fun eid => nodup_nil, fun eid eid' _ x hx => ?_⟩, carries_ofBuffer _, rfl⟩
  · cases hmem
  · exact lt_one_iff.mp hid
  · cases hx

variable {w w' : Partitions tableCfg P × ServerAccessor cfg}

theorem ready_processBurst {burst : Burst}
    (hburst : Received cfg burst.bufs burst.packetCount stageGap) (hready : w.2.Ready)
    (h : processBurst lcoreId stageGap w burst = .ok w') : w'.2.Ready := by
  unfold processBurst at h
  split at h
  · obtain ⟨s, hs, h⟩ := bind_eq_ok.mp h
    cases h
    obtain ⟨hall, hserving⟩ := serving_of_process hburst hready hs
    exact hserving.ready hall
  · cases h
    exact hready

/-- **An iteration of the worker** leaves it ready for the next one. -/
theorem ready_workerStep {burst : Burst}
    (hburst : Received cfg burst.bufs burst.packetCount stageGap) (hready : w.2.Ready)
    (h : workerStep lcoreId stageGap w burst = .ok w') : w'.2.Ready := by
  obtain ⟨_, hprocess, h⟩ := bind_eq_ok.mp h
  cases h
  exact ((ready_processBurst hburst hready hprocess).checkPendingTxMin _).checkPendingTxTimeout _ _

/-- **A worker that served any number of bursts** since it was constructed. -/
def Served (lcoreId stageGap : Nat) (partitions : Partitions tableCfg P) (a : ServerAccessor cfg) :
    Prop :=
  ∃ (partitions₀ : Partitions tableCfg P) (buffers : Nat → PacketBuffer)
    (requests : Nat → ParsedRequest) (bursts : List Burst),
    (∀ burst ∈ bursts, Received cfg burst.bufs burst.packetCount stageGap) ∧
      bursts.foldlM (workerStep lcoreId stageGap) (partitions₀, create cfg buffers requests) =
        .ok (partitions, a)

theorem Served.ready (h : Served lcoreId stageGap partitions a) : a.Ready := by
  obtain ⟨_, _, _, _, hbursts, hrun⟩ := h
  exact foldlM_invariant (fun w : Partitions tableCfg P × ServerAccessor cfg => w.2.Ready)
    (fun burst hmem _ _ hready hstep => ready_workerStep (hbursts burst hmem) hready hstep)
    (ready_create _ _ _) hrun

/-! ## What the server does with a burst -/

variable {bufs : Nat → PacketBuffer} {packetCount : Nat}

/-- One of the requests calls its table, for another operation than a reset, and the call ends in
the fault. -/
def CallFaults (lcoreId : Nat) (request : List Outcome → RequestData) (n : Nat)
    (partitions : Partitions tableCfg P) (fault : Fault) : Prop :=
  ∃ i < n, ∃ partitions' retired operation,
    sequential lcoreId request i partitions = .ok (partitions', retired) ∧
      let q := request (retired.map Retirement.outcome)
      q.operation = some operation ∧ operation ≠ .kReset ∧
        partitions'.handle lcoreId (partitions'.getPartitionId q.keyHash) q = .error fault

theorem callFaults_of_sequential {start : ServerAccessor cfg} {fault : Fault}
    (hoperations : ∀ pr ∈ parsedRequests bufs packetCount,
      ∃ operation, Operation.ofCode pr.operation = some operation ∧ operation ≠ .kReset)
    (h : sequential lcoreId (requestAfter bufs packetCount start)
      (parsedRequests bufs packetCount).length partitions = .error fault) :
    CallFaults lcoreId (requestAfter bufs packetCount start)
      (parsedRequests bufs packetCount).length partitions fault := by
  obtain ⟨i, hi, partitions', retired, hbefore, hfault⟩ := fault_of_sequential h
  have hlength := congrArg List.length (retired_of_sequential hbefore).2.1
  rw [length_map, length_range] at hlength
  obtain ⟨operation, hoperation, hne⟩ := hoperations _ (getElem_mem hi)
  refine ⟨i, hi, partitions', retired, operation, hbefore, ?_, hne, hfault⟩
  unfold requestAfter requestData
  rw [length_map, hlength, getD_eq_getElem?_getD, getElem?_eq_getElem hi]
  exact hoperation

/-- **The server answers each request once and in kind**: for each packet with requests, one
response is handed to the endpoint.  No entry of the ring is overwritten before it was retired.  The
burst is served as if its requests were executed one after another, and it fails only if one of
these calls of a table does. -/
theorem process_responds (hring : cfg.kMaxParsedRequestCount = 128) (hgap : stageGap ≤ 16)
    (hserved : Served lcoreId stageGap partitions a) (hcount : packetCount ≤ cfg.kRXBurst)
    (hlength : ∀ srcBuf < packetCount, (bufs srcBuf).length ≤ 1514)
    (hoperations : ∀ pr ∈ parsedRequests bufs packetCount,
      ∃ operation, Operation.ofCode pr.operation = some operation ∧ operation ≠ .kReset)
    (partitionIds : Nat → Nat) (eid now : Nat) :
    (∃ s, partitions.process lcoreId stageGap partitionIds (a.setup eid bufs packetCount now) =
        .ok s ∧
        sequential lcoreId (requestAfter bufs packetCount (a.setup eid bufs packetCount now))
          (parsedRequests bufs packetCount).length partitions = .ok (s.partitions, s.retired) ∧
        s.accessor.overwritten = false ∧
        ∃ responses, (s.accessor.txStates eid).handed = (a.txStates eid).handed ++ responses ∧
          List.Forall₂ (fun x response => Fits x.2 → Responds (bufs x.1) x.2 response.packet)
            (outcomesOf bufs (requestPackets bufs packetCount)
              (s.retired.map Retirement.outcome)) responses) ∨
      ∃ fault, partitions.process lcoreId stageGap partitionIds
            (a.setup eid bufs packetCount now) = .error fault ∧
        CallFaults lcoreId (requestAfter bufs packetCount (a.setup eid bufs packetCount now))
          (parsedRequests bufs packetCount).length partitions fault := by
  have hburst : Received cfg bufs packetCount stageGap :=
    ⟨hcount, hlength, by rw [hring]; unfold kMaxRequestsPerPacket; omega, by omega⟩
  have hagrees := process_serves hburst hserved.ready partitions lcoreId partitionIds eid now
  cases hs : partitions.process lcoreId stageGap partitionIds
      (a.setup eid bufs packetCount now) with
  | ok s =>
    obtain ⟨hall, hserving⟩ := serving_of_process hburst hserved.ready hs
    rw [hs] at hagrees
    exact .inl ⟨s, rfl, hagrees.inv.1, hserving.parsing.overwritten_eq, hserving.responds hall⟩
  | error fault =>
    have hmap := hagrees.map_eq
    rw [hs] at hmap
    exact .inr ⟨fault, rfl, callFaults_of_sequential hoperations hmap.symm⟩

end Worker

/-! ## Concrete bursts -/

/-- The configuration of the source; the stopwatch counts a thousand cycles in a microsecond. -/
def basicServerConfig : ServerConfig :=
  ⟨32, 32, 1, 10, 128, 1000, by decide, 7, rfl⟩

/-- A worker that starts. -/
def freshServer : ServerAccessor basicServerConfig :=
  create basicServerConfig (fun _ => ⟨fun _ => 0, 0⟩)
    fun _ => ⟨0, fun _ => 0, fun _ => 0, 0, 0, 0, 0, 0, false⟩

/-- A packet with a request that sets a value, and one that reads it. -/
def storeAndLoadPacket : PacketBuffer :=
  RequestBatchBuilder.build ⟨fun _ => 0, 0⟩ false
    [⟨.kSet, .kSuccess, 7, 1, filled 7, 8, filled 9, 8⟩,
      ⟨.kGet, .kSuccess, 8, 1, filled 7, 8, filled 0, 0⟩]

/-- A burst of one packet. -/
def burstOf (buf : PacketBuffer) : Burst := ⟨0, fun _ => buf, 1, 0, fun _ => 0⟩

/-- A worker serves a burst of one packet with a stage gap of two. -/
def processPacket (w : Partitions oneBucket (CircularLog ⟨21, smallLog_minimum, smallLog_maximum⟩) ×
      ServerAccessor basicServerConfig) (buf : PacketBuffer) : Except Fault
    (Pipeline oneBucket (CircularLog ⟨21, smallLog_minimum, smallLog_maximum⟩)
      (ServerAccessor basicServerConfig)) :=
  w.1.process 0 2 (fun _ => 0) (w.2.setup 0 (fun _ => buf) 1 0)

theorem received_packet {buf : PacketBuffer} (hlength : buf.length ≤ kMaxPacketLength) :
    Received basicServerConfig (fun _ => buf) 1 2 :=
  ⟨by decide, fun _ _ => hlength, by decide, by decide⟩

theorem served_storeAndLoadPacket
    {w : Partitions oneBucket (CircularLog ⟨21, smallLog_minimum, smallLog_maximum⟩) ×
      ServerAccessor basicServerConfig}
    (h : workerStep 0 2 (onePartition, freshServer) (burstOf storeAndLoadPacket) = .ok w) :
    Served 0 2 w.1 w.2 :=
  ⟨onePartition, _, _, [burstOf storeAndLoadPacket], fun _ hmem => by
    rw [mem_singleton.mp hmem]
    exact received_packet (by decide), foldlM_cons_eq_ok.mpr ⟨w, h, rfl⟩⟩

/-- The packet is served twice, and the answers fit into a packet. -/
theorem storeAndLoadPacket_twice : ∃ w s,
    workerStep 0 2 (onePartition, freshServer) (burstOf storeAndLoadPacket) = .ok w ∧
    processPacket w storeAndLoadPacket = .ok s ∧ Fits (s.retired.map Retirement.outcome) := by
  have hfits : ((workerStep 0 2 (onePartition, freshServer)
      (burstOf storeAndLoadPacket)).toOption.any fun w =>
        (processPacket w storeAndLoadPacket).toOption.any fun s =>
          decide (Fits (s.retired.map Retirement.outcome))) = true := by
    decide +kernel
  cases hw : workerStep 0 2 (onePartition, freshServer) (burstOf storeAndLoadPacket) with
  | error =>
    rw [hw] at hfits
    cases hfits
  | ok w =>
    rw [hw, Except.toOption, Option.any_some] at hfits
    cases hs : processPacket w storeAndLoadPacket with
    | error =>
      rw [hs] at hfits
      cases hfits
    | ok s =>
      rw [hs, Except.toOption, Option.any_some] at hfits
      exact ⟨w, s, rfl, hs, of_decide_eq_true hfits⟩

/-- The second burst of a worker is answered by one packet with two answers. -/
theorem process_responds_storeAndLoadPacket : ∃ w s,
    workerStep 0 2 (onePartition, freshServer) (burstOf storeAndLoadPacket) = .ok w ∧
    processPacket w storeAndLoadPacket = .ok s ∧ s.accessor.overwritten = false ∧ ∃ response,
      (s.accessor.txStates 0).handed = (w.2.txStates 0).handed ++ [response] ∧
      Responds storeAndLoadPacket (s.retired.map Retirement.outcome) response.packet := by
  obtain ⟨w, s, hw, hs, hfits⟩ := storeAndLoadPacket_twice
  have hpackets : requestPackets (fun _ => storeAndLoadPacket) 1 = [0] := by decide +kernel
  have hrequests : (requestsOf storeAndLoadPacket).length = 2 := by decide +kernel
  have hparsed : (parsedRequests (fun _ => storeAndLoadPacket) 1).length = 2 := by decide +kernel
  have hlength : ∀ srcBuf < 1, ((fun _ : Nat => storeAndLoadPacket) srcBuf).length ≤ 1514 :=
    fun _ _ => (by decide : storeAndLoadPacket.length ≤ 1514)
  have hcodes : ((parsedRequests (fun _ => storeAndLoadPacket) 1).all fun pr =>
      (Operation.ofCode pr.operation).any (· ≠ .kReset)) = true := by decide +kernel
  have hoperations : ∀ pr ∈ parsedRequests (fun _ => storeAndLoadPacket) 1,
      ∃ operation, Operation.ofCode pr.operation = some operation ∧ operation ≠ .kReset := by
    intro pr hpr
    have hcode := all_eq_true.mp hcodes pr hpr
    rw [Option.any_eq_true] at hcode
    obtain ⟨operation, hoperation, hne⟩ := hcode
    exact ⟨operation, hoperation, of_decide_eq_true hne⟩
  rcases process_responds rfl (show 2 ≤ 16 by decide) (served_storeAndLoadPacket hw)
    (show 1 ≤ 32 by decide) hlength hoperations (fun _ => 0) 0 0 with
    ⟨s', hs', hsequential, hkept, responses, hhanded, hresponds⟩ | ⟨_, hfault, -⟩
  · obtain rfl : s = s' := by
      have hsame := hs.symm.trans hs'
      cases hsame
      rfl
    have hretired := congrArg List.length (retired_of_sequential hsequential).2.1
    rw [length_map, length_range, hparsed] at hretired
    rw [hpackets, outcomesOf, hrequests, outcomesOf,
      take_of_length_le ((length_map _).trans hretired).le] at hresponds
    obtain ⟨response, _, hresponse, hnil, rfl⟩ := forall₂_cons_left_iff.mp hresponds
    cases hnil
    exact ⟨w, s, hw, hs, hkept, response, hhanded, hresponse hfits⟩
  · cases hs.symm.trans hfault

end ServerAccessor

end Testbed.Mica
