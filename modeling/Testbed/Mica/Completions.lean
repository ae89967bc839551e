import Testbed.Mica.Matching

/-! # Completions

Each request that has taken a descriptor is to be reported to the response handler exactly once.
`Ledger` writes down the requests and the calls of the handler, and for each response the request
that it answers; responses may be lost, delayed, duplicated or reordered, but a response has the
opaque number of a request.

A descriptor counts its releases in 16 bits.  A response that is so late that the count has come
around matches a later request, or one that was completed.  So requests are reported exactly
once if no response comes after `2 ^ 16 - 1` reuses of its descriptor (`throughout_exactlyOnce`);
with that many reuses, the last of which has been completed, a response completes it again
(`not_throughout_lateResponse`).
-/
namespace Testbed.Mica

open Lib
open Client
open Descriptors
open RequestBatchReader List Nat

/-! ## What is written down -/

/-- A request that has taken a descriptor, by its number among them. -/
structure Issue (α : Type) where
  number : Nat
  rd : Nat
  epoch : Nat
  arg : α

/-- The opaque number of the request, and of the responses to it. -/
def Issue.opaqueNumber {α : Type} (issue : Issue α) : Nat := issue.rd * 2 ^ 16 + issue.epoch

/-- A call of the handler: the request that holds the descriptor, and the response with the number
of the request that it answers. -/
structure Report (cfg : ClientConfig) (α : Type) where
  request : Option Nat
  call : HandlerCall cfg α
  response : Option (Nat × RequestBatchReader)

/-- The requests, most recent first, and the calls of the handler. -/
structure Ledger (cfg : ClientConfig) (α : Type) where
  issues : List (Issue α)
  reports : List (Report cfg α)

namespace Ledger
variable {cfg : ClientConfig} {α : Type} (ledger : Ledger cfg α)

/-- The last request that has taken the descriptor. -/
def lastIssue (rd : Nat) : Option (Issue α) :=
  ledger.issues.find? fun issue => issue.rd = rd

def issue (rd epoch : Nat) (arg : α) : Ledger cfg α :=
  { ledger with issues := ⟨ledger.issues.length, rd, epoch, arg⟩ :: ledger.issues }

/-- `origins` tells which requests the records answer. -/
def report (records : List RequestBatchReader) (origins : Nat → Nat) (ledger : Ledger cfg α)
    (call : HandlerCall cfg α) : Ledger cfg α :=
  { ledger with
    reports := ledger.reports ++
      [{ request := (ledger.lastIssue call.rd).map Issue.number
         call
         response := call.record.bind fun k => records[k]?.map fun r => (origins k, r) }] }

/-- How often the descriptor of the request has been reused. -/
def reuses (issue : Issue α) : Nat :=
  ledger.issues.countP fun later => later.rd = issue.rd ∧ issue.number < later.number

/-- The calls of the handler for the request. -/
def reportsOf (issue : Issue α) : List (Report cfg α) :=
  ledger.reports.filter fun report => report.request = some issue.number

end Ledger

open Ledger

section
variable {cfg : ClientConfig} {α : Type}

/-- The handler is called with the argument of the request, and either with the response to it or
because it has timed out. -/
def Report.Settles (report : Report cfg α) (issue : Issue α) : Prop :=
  report.call.rd = issue.rd ∧ report.call.arg = issue.arg ∧
    match report.response with
    | none => report.call.result = Result.kTimedOut.code ∧ report.call.value = none
    | some (number, r) => number = issue.number ∧ report.call.result = r.getResult ∧
      report.call.value = some r.getValue ∧ report.call.valueLength = r.getValueLength

/-- The request is active. -/
def Outstanding (s : Descriptors cfg α) (ledger : Ledger cfg α) (issue : Issue α) : Prop :=
  issue.rd ∈ s.actives ∧ (ledger.lastIssue issue.rd).map Issue.number = some issue.number

/-- **Each request is either active and not reported, or reported exactly once.** -/
def ExactlyOnce (s : Descriptors cfg α) (ledger : Ledger cfg α) : Prop :=
  ∀ issue ∈ ledger.issues, (Outstanding s ledger issue ∧ ledger.reportsOf issue = []) ∨
      (¬Outstanding s ledger issue ∧
        ∃ report, ledger.reportsOf issue = [report] ∧ report.Settles issue)

end

namespace Client
variable {cfg : ClientConfig} {α : Type}

/-- A call of a member function; a packet comes with the numbers of the requests that its records
answer. -/
inductive Exchange (α : Type) where
  | request (now : Nat) (q : RequestArguments α)
  | handleResponse (now : Nat) (received : Nat → List PacketBuffer) (origins : Nat → Nat)

variable (acc : Client cfg α × Ledger cfg α)

/-- The call, and what is written down about it. -/
def exchange : Exchange α → Except Fault (Client cfg α × Ledger cfg α)
  | .request now q => do
    let (rd, c) ← acc.1.appendRequest now q
    return (c, if rd = kNullRD then acc.2 else acc.2.issue rd (c.descriptors.epoch rd) q.arg)
  | .handleResponse now received origins => do
    let (c, calls) ← acc.1.handleResponse now received
    return (c, calls.foldl (report (acc.1.responses received) origins) acc.2)

/-- The call may be made. -/
def Permitted : Exchange α → Prop
  | .request _ _ => acc.1.descriptors.canRequest = true
  | .handleResponse _ _ _ => True

/-- **The responses are genuine**: each has the opaque number of a request, and it comes before the
descriptor has been reused `bound` times. -/
def GenuineRecords (bound : Nat) (ledger : Ledger cfg α) (records : List RequestBatchReader)
    (origins : Nat → Nat) : Prop :=
  ∀ k r, records[k]? = some r → ∃ issue ∈ ledger.issues,
    issue.number = origins k ∧ r.getOpaque = issue.opaqueNumber ∧ ledger.reuses issue < bound

def Genuine (bound : Nat) (acc : Client cfg α × Ledger cfg α) : Exchange α → Prop
  | .request _ _ => True
  | .handleResponse _ received origins =>
    GenuineRecords bound acc.2 (acc.1.responses received) origins

/-- Something holds of each call, and of what it is made on. -/
def EveryExchange (P : Client cfg α × Ledger cfg α → Exchange α → Prop) :
    Client cfg α × Ledger cfg α → List (Exchange α) → Prop
  | _, [] => True
  | acc, e :: exchanges =>
    P acc e ∧ ∀ acc', exchange acc e = .ok acc' → EveryExchange P acc' exchanges

/-- At any time the requests are reported exactly once, and the calls return. -/
def Throughout : Client cfg α × Ledger cfg α → List (Exchange α) → Prop
  | acc, [] => ExactlyOnce acc.1.descriptors acc.2
  | acc, e :: exchanges => ExactlyOnce acc.1.descriptors acc.2 ∧
    (Permitted acc e → ∃ acc', exchange acc e = .ok acc') ∧
    ∀ acc', exchange acc e = .ok acc' → Throughout acc' exchanges

end Client

/-! ## The accounts of a descriptor -/

section Accounts
variable {cfg : ClientConfig} {α : Type} {s s' : Descriptors cfg α} {ledger : Ledger cfg α}
  {issues : List (Issue α)} {issue issue' : Issue α} {rd : Nat}

/-- How many requests have taken the descriptor. -/
def taken (issues : List (Issue α)) (rd : Nat) : Nat := issues.countP fun issue => issue.rd = rd

/-- The requests are numbered, and the epoch of each is the number of requests that have taken the
descriptor before. -/
def Numbered (cfg : ClientConfig) : List (Issue α) → Prop
  | [] => True
  | issue :: earlier => issue.number = earlier.length ∧
    issue.rd < cfg.kMaxOutstandingRequestCount ∧
    issue.epoch = taken earlier issue.rd % 2 ^ 16 ∧ Numbered cfg earlier

theorem Numbered.lt_length (h : Numbered cfg issues) (hmem : issue ∈ issues) :
    issue.number < issues.length := by
  induction issues with
  | nil => cases hmem
  | cons _ _ ih =>
    obtain rfl | hmem := mem_cons.mp hmem
    · exact h.1 ▸ lt_succ_self _
    · exact lt_succ_of_lt (ih h.2.2.2 hmem)

theorem Numbered.split (h : Numbered cfg issues) (hmem : issue ∈ issues) :
    ∃ later earlier, issues = later ++ issue :: earlier ∧
      (∀ i ∈ later, issue.number < i.number) ∧ (∀ i ∈ earlier, i.number < issue.number) ∧
      issue.rd < cfg.kMaxOutstandingRequestCount ∧
      issue.epoch = taken earlier issue.rd % 2 ^ 16 := by
  induction issues with
  | nil => cases hmem
  | cons first earlier ih =>
    obtain rfl | hin := mem_cons.mp hmem
    · refine ⟨[], earlier, rfl, fun _ hi => absurd hi not_mem_nil, fun i hi => ?_, h.2.1, h.2.2.1⟩
      rw [h.1]
      exact h.2.2.2.lt_length hi
    · obtain ⟨later, earlier', rfl, hlater, hrest⟩ := ih h.2.2.2 hin
      refine ⟨first :: later, earlier', rfl, fun i hi => ?_, hrest⟩
      obtain rfl | hi := mem_cons.mp hi
      · rw [h.1]
        exact h.2.2.2.lt_length hin
      · exact hlater i hi

theorem Numbered.eq_of_number_eq (h : Numbered cfg issues) (hmem : issue ∈ issues)
    (hmem' : issue' ∈ issues) (heq : issue.number = issue'.number) : issue = issue' := by
  obtain ⟨_, _, rfl, hlater, hearlier, -⟩ := h.split hmem'
  simp only [mem_append, mem_cons] at hmem
  obtain hin | rfl | hin := hmem
  · exact absurd heq (ne_of_gt (hlater issue hin))
  · rfl
  · exact absurd heq (Nat.ne_of_lt (hearlier issue hin))

theorem Numbered.exists_number {k : Nat} (h : Numbered cfg issues) (hk : k < issues.length) :
    ∃ issue ∈ issues, issue.number = k := by
  induction issues with
  | nil => exact absurd hk (not_lt_zero k)
  | cons first earlier ih =>
    by_cases hfirst : k = earlier.length
    · exact ⟨first, mem_cons_self, h.1.trans hfirst.symm⟩
    · rw [length_cons] at hk
      obtain ⟨issue, hissue, hnumber⟩ := ih h.2.2.2 (by omega)
      exact ⟨issue, mem_cons_of_mem first hissue, hnumber⟩

/-- **What the descriptors and the ledger have in common**: the epoch of a descriptor is the number
of its requests that are completed. -/
structure Accounts (s : Descriptors cfg α) (ledger : Ledger cfg α) : Prop where
  numbered : Numbered cfg ledger.issues
  epoch : ∀ rd < cfg.kMaxOutstandingRequestCount,
    s.epoch rd = (if rd ∈ s.actives then taken ledger.issues rd - 1 else taken ledger.issues rd) %
      2 ^ 16
  active : ∀ rd ∈ s.actives, ∃ issue, ledger.lastIssue rd = some issue ∧ issue.arg = s.arg rd
  reported : ∀ report ∈ ledger.reports, ∀ number, report.request = some number →
    number < ledger.issues.length
  once : ExactlyOnce s ledger

theorem accounts_initRds (s : Descriptors cfg α) : Accounts s.initRds ⟨[], []⟩ := by
  have hactives := (lists_initRds s).actives_eq
  refine ⟨trivial, fun rd hrd => ?_, fun rd hrd => ?_, fun _ h => ?_, fun _ h => ?_⟩
  · rw [hactives, if_neg not_mem_nil]
    unfold epoch initRds
    dsimp only
    split
    · rfl
    · rfl
  · rw [hactives] at hrd
    cases hrd
  · cases h
  · cases h

theorem Ledger.mem_of_lastIssue (h : ledger.lastIssue rd = some issue) :
    issue ∈ ledger.issues ∧ issue.rd = rd :=
  ⟨mem_of_find?_eq_some h, by simpa using find?_some h⟩

theorem Accounts.allocate {arg : α} (h : Accounts s ledger)
    (hrd : rd < cfg.kMaxOutstandingRequestCount) (hunused : rd ∉ s.actives)
    (hactives : ∀ y, y ∈ s'.actives ↔ y ∈ s.actives ∨ y = rd) (hepoch : s'.epoch = s.epoch)
    (harg : s'.arg = Function.update s.arg rd arg) :
    Accounts s' (ledger.issue rd (s'.epoch rd) arg) := by
  have hold : ∀ y, y ≠ rd → (y ∈ s'.actives ↔ y ∈ s.actives) := fun y hy => by
    rw [hactives]
    exact or_iff_left hy
  have hlast : ∀ y, y ≠ rd →
      (ledger.issue rd (s'.epoch rd) arg).lastIssue y = ledger.lastIssue y := fun y hy =>
    find?_cons_of_neg (by simpa using hy.symm)
  have hself : (ledger.issue rd (s'.epoch rd) arg).lastIssue rd =
      some ⟨ledger.issues.length, rd, s'.epoch rd, arg⟩ := find?_cons_of_pos (by simp)
  refine ⟨⟨rfl, hrd, ?_, h.numbered⟩, fun y hy => ?_, fun y hy => ?_, fun report hreport n hn => ?_,
    fun issue hissue => ?_⟩
  · rw [hepoch, h.epoch rd hrd, if_neg hunused]
  · rw [hepoch, h.epoch y hy]
    by_cases hyrd : y = rd
    · subst hyrd
      rw [if_neg hunused, if_pos ((hactives y).mpr (.inr rfl))]
      unfold taken issue
      rw [countP_cons_of_pos (by simp), Nat.add_sub_cancel]
    · simp only [hold y hyrd]
      unfold taken issue
      rw [countP_cons_of_neg (by simpa using fun heq : rd = y => hyrd heq.symm)]
  · by_cases hyrd : y = rd
    · subst hyrd
      exact ⟨_, hself, by rw [harg, Function.update_self]⟩
    · obtain ⟨issue, hissue, hsame⟩ := h.active y ((hold y hyrd).mp hy)
      refine ⟨issue, (hlast y hyrd).trans hissue, ?_⟩
      rw [harg, Function.update_of_ne hyrd, hsame]
  · exact lt_succ_of_lt (h.reported report hreport n hn)
  · obtain rfl | hmem := mem_cons.mp hissue
    · refine .inl ⟨⟨(hactives rd).mpr (.inr rfl), by rw [hself]; rfl⟩, ?_⟩
      refine filter_eq_nil_iff.mpr fun report hreport hrequest => ?_
      exact lt_irrefl _ (h.reported report hreport _ (by simpa using hrequest))
    · have hlt := h.numbered.lt_length hmem
      have hiff : Outstanding s' (ledger.issue rd (s'.epoch rd) arg) issue ↔
          Outstanding s ledger issue := by
        unfold Outstanding
        by_cases hyrd : issue.rd = rd
        · rw [hyrd, hself]
          refine iff_of_false (fun hout => ?_) fun hout => hunused hout.1
          exact ne_of_gt hlt (Option.some.inj hout.2)
        · rw [hlast _ hyrd, hold _ hyrd]
      have honce := h.once issue hmem
      rw [← hiff] at honce
      exact honce

variable {call : HandlerCall cfg α} {origins : Nat → Nat}

theorem Accounts.complete {records : List RequestBatchReader} (h : Accounts s ledger)
    (hactive : rd ∈ s.actives) (hactives : ∀ y, y ∈ s'.actives ↔ y ∈ s.actives ∧ y ≠ rd)
    (hreleased : Released s s' rd)
    (hlt : ∀ y ∈ s.actives, y < cfg.kMaxOutstandingRequestCount) (hcall : call.rd = rd)
    (hsettles : ∀ issue, ledger.lastIssue rd = some issue → Report.Settles
      ⟨some issue.number, call, call.record.bind fun k => records[k]?.map fun r => (origins k, r)⟩
      issue) : Accounts s' (ledger.report records origins call) := by
  obtain ⟨last, hlast, _⟩ := h.active rd hactive
  obtain ⟨hlastmem, hlastrd⟩ := mem_of_lastIssue hlast
  refine ⟨h.numbered, fun y hy => ?_, fun y hy => ?_, fun report hreport n hn => ?_,
    fun issue hissue => ?_⟩
  · rw [hreleased.epoch y hy, h.epoch y hy]
    change _ =
      (if y ∈ s'.actives then taken ledger.issues y - 1 else taken ledger.issues y) % 2 ^ 16
    by_cases hyrd : y = rd
    · have hpos : 0 < taken _ _ := countP_pos_iff.mpr ⟨_, hlastmem, decide_eq_true rfl⟩
      rw [hlastrd, ← hyrd] at hpos
      rw [if_pos hyrd, if_pos (hyrd ▸ hactive), if_neg fun hin => ((hactives y).mp hin).2 hyrd]
      omega
    · have hsame : y ∈ s'.actives ↔ y ∈ s.actives := by
        rw [hactives]
        exact and_iff_left hyrd
      rw [if_neg hyrd]
      simp only [hsame]
  · obtain ⟨issue, hissue, hsame⟩ := h.active y ((hactives y).mp hy).1
    exact ⟨issue, hissue, hsame.trans (hreleased.arg y (hlt y ((hactives y).mp hy).1)).symm⟩
  · obtain hreport | hreport := mem_append.mp hreport
    · exact h.reported report hreport n hn
    · rw [mem_singleton.mp hreport] at hn
      rw [hcall, hlast] at hn
      rw [← Option.some.inj hn]
      exact h.numbered.lt_length hlastmem
  · have hreports : (ledger.report records origins call).reportsOf issue = ledger.reportsOf issue ++
        if last.number = issue.number then [⟨some last.number, call,
          call.record.bind fun k => records[k]?.map fun r => (origins k, r)⟩] else [] := by
      unfold reportsOf report
      rw [filter_append, hcall, hlast, filter_singleton]
      simp
    by_cases hnumber : last.number = issue.number
    · -- it was active, and it is not any more
      obtain rfl := h.numbered.eq_of_number_eq hlastmem hissue hnumber
      have hout : Outstanding s ledger last := ⟨hlastrd ▸ hactive, by rw [hlastrd, hlast]; rfl⟩
      obtain ⟨-, hnil⟩ | ⟨hnot, -⟩ := h.once last hlastmem
      · refine .inr ⟨fun hout' => ((hactives _).mp hout'.1).2 hlastrd, _, ?_, hsettles last hlast⟩
        rw [hreports, hnil, if_pos rfl, nil_append]
      · exact absurd hout hnot
    · rw [hreports, if_neg hnumber, append_nil]
      have hiff : Outstanding s' (ledger.report records origins call) issue ↔
          Outstanding s ledger issue := by
        refine and_congr_left fun heq => ?_
        rw [hactives]
        refine and_iff_left fun hyrd => hnumber ?_
        rw [hyrd] at heq
        exact Option.some.inj ((congrArg _ hlast).symm.trans heq)
      have honce := h.once issue hissue
      rw [← hiff] at honce
      exact honce

/-- **A genuine response matches only the request that it answers**, and only while that is
active. -/
theorem Accounts.active_of_matches {r : RequestBatchReader} (h : Accounts s ledger)
    (hissue : issue ∈ ledger.issues) (hcode : r.getOpaque = issue.opaqueNumber)
    (hreuses : ledger.reuses issue < 2 ^ 16 - 1) (hr : s.Matches r) :
    r.getRd = issue.rd ∧ issue.rd ∈ s.actives ∧ ledger.lastIssue issue.rd = some issue := by
  obtain ⟨later, earlier, hsplit, hlater, hearlier, hlt, hepoch⟩ := h.numbered.split hissue
  have hcount := cfg.count_lt
  have hrd : r.getRd = issue.rd := by
    unfold getRd
    rw [hcode]
    unfold Issue.opaqueNumber
    omega
  have hrepoch : r.getEpoch = issue.epoch := by
    unfold getEpoch
    rw [hcode]
    unfold Issue.opaqueNumber
    omega
  have htaken : taken ledger.issues issue.rd =
      taken later issue.rd + (taken earlier issue.rd + 1) := by
    unfold taken
    rw [hsplit, countP_append, countP_cons_of_pos (by simp)]
  have hreused : ledger.reuses issue = taken later issue.rd := by
    unfold reuses taken
    rw [hsplit, countP_append, countP_cons_of_neg (by simp)]
    have hnone : earlier.countP (fun i => decide (i.rd = issue.rd ∧ issue.number < i.number)) = 0 :=
      countP_eq_zero.mpr fun i hi => by
        have := hearlier i hi
        simp only [decide_eq_true_eq]
        omega
    rw [hnone, add_zero]
    refine countP_congr fun i hi => ?_
    have := hlater i hi
    simp only [decide_eq_true_eq]
    exact and_iff_left this
  have hcurrent := h.epoch issue.rd hlt
  have hmatches := hr.2
  rw [hrd, hrepoch, hepoch, hcurrent, htaken] at hmatches
  -- the descriptor was released fewer than `2 ^ 16` times since
  by_cases hactive : issue.rd ∈ s.actives
  · rw [if_pos hactive] at hmatches
    have hnone : taken later issue.rd = 0 := by omega
    refine ⟨hrd, hactive, ?_⟩
    unfold lastIssue
    rw [hsplit, find?_append, find?_cons_of_pos (by simp), find?_eq_none.mpr]
    · rfl
    · exact countP_eq_zero.mp hnone
  · rw [if_neg hactive] at hmatches
    omega

end Accounts

/-! ## The loops of `handle_response` -/

namespace Client
variable {cfg : ClientConfig} {α : Type} {c : Client cfg α} {s : Descriptors cfg α}
  {ledger : Ledger cfg α} {calls : List (HandlerCall cfg α)} {unused active : List Nat}
  {records : List RequestBatchReader} {origins : Nat → Nat}

theorem issues_report (calls : List (HandlerCall cfg α)) :
    (calls.foldl (report records origins) ledger).issues = ledger.issues := by
  induction calls generalizing ledger with
  | nil => rfl
  | cons _ _ ih => exact ih

theorem reports_report (calls : List (HandlerCall cfg α)) :
    (calls.foldl (report records origins) ledger).reports = ledger.reports ++
      calls.map fun call => ⟨(ledger.lastIssue call.rd).map Issue.number, call,
        call.record.bind fun k => records[k]?.map fun r => (origins k, r)⟩ := by
  induction calls generalizing ledger with
  | nil => exact (append_nil _).symm
  | cons _ _ ih =>
    rw [foldl_cons, ih, map_cons]
    exact append_assoc _ _ _

theorem reportsOf_length_lt {issue : Issue α} (records : List RequestBatchReader)
    (origins : Nat → Nat) (hcall : call ∈ calls) (hlast : ledger.lastIssue call.rd = some issue) :
    (ledger.reportsOf issue).length <
      ((calls.foldl (report records origins) ledger).reportsOf issue).length := by
  unfold reportsOf
  rw [reports_report, filter_append, length_append]
  refine Nat.lt_add_of_pos_right (length_pos_of_mem (a := ⟨some issue.number, call,
    call.record.bind fun k => records[k]?.map fun r => (origins k, r)⟩) ?_)
  refine mem_filter.mpr ⟨mem_map.mpr ⟨call, hcall, ?_⟩, decide_eq_true rfl⟩
  rw [hlast]
  rfl

variable {s' : Descriptors cfg α}

theorem mem_actives_erase {rd : Nat} (h : s.Lists unused active)
    (h' : s'.Lists (rd :: unused) (active.erase rd)) (y : Nat) :
    y ∈ s'.actives ↔ y ∈ s.actives ∧ y ≠ rd := by
  rw [h.actives_eq, h'.actives_eq, (nodup_append.mp h.nodup).2.1.mem_erase_iff, and_comm]

theorem lt_of_mem_actives (h : s.Lists unused active) (y : Nat) (hy : y ∈ s.actives) :
    y < cfg.kMaxOutstandingRequestCount :=
  h.lt (mem_append_right _ (h.actives_eq ▸ hy))

theorem accounts_records (hgenuine : GenuineRecords (2 ^ 16 - 1) ledger records origins)
    (calls : List (HandlerCall cfg α)) (done rest : List RequestBatchReader)
    (hsplit : records = done ++ rest)
    (hlists : s.Lists unused active)
    (h : Accounts s (calls.foldl (report records origins) ledger)) :
    ∃ s' calls' unused' active',
      (rest.zipIdx done.length).foldlM handleRecord (s, calls) = .ok (s', calls') ∧
      s'.Lists unused' active' ∧
      Accounts s' (calls'.foldl (report records origins) ledger) := by
  induction rest generalizing done s calls unused active with
  | nil => exact ⟨s, calls, unused, active, rfl, hlists, h⟩
  | cons r rest ih =>
    have hsplit' : records = (done ++ [r]) ++ rest := by rw [hsplit, append_assoc]; rfl
    have hlength : (done ++ [r]).length = done.length + 1 := length_append
    have hget : records[done.length]? = some r := by
      rw [hsplit, getElem?_append_right (Nat.le_refl _), Nat.sub_self]
      rfl
    by_cases hr : s.Matches r
    · obtain ⟨issue, _, hnumber, hcode, hreuses⟩ := hgenuine _ r hget
      have hissues : issue ∈ (calls.foldl (report records origins) ledger).issues := by
        rwa [issues_report]
      obtain ⟨hrd, hactive, hlast⟩ := h.active_of_matches hissues hcode
        (by unfold reuses at hreuses ⊢; rwa [issues_report]) hr
      rw [← hrd] at hactive hlast
      have hmem := hlists.actives_eq ▸ hactive
      obtain ⟨s', hrecord, hlists', hreleased⟩ := hlists.handleRecord calls done.length hr hmem
      have hs' : Accounts s' ((calls ++ [HandlerCall.ofResponse s r done.length]).foldl
          (report records origins) ledger) := by
        rw [foldl_append]
        refine h.complete hactive (mem_actives_erase hlists hlists') hreleased
          (lt_of_mem_actives hlists) rfl fun issue' hissue' => ?_
        cases hlast.symm.trans hissue'
        obtain ⟨_, hlast'', harg⟩ := h.active _ hactive
        cases hlast.symm.trans hlast''
        refine ⟨hrd, harg.symm, ?_⟩
        simp only [HandlerCall.ofResponse, Option.bind_some, hget, Option.map_some]
        exact ⟨hnumber.symm, trivial, trivial, trivial⟩
      obtain ⟨s'', calls'', unused'', active'', hfold, hresult⟩ :=
        ih _ (done ++ [r]) hsplit' hlists' hs'
      rw [hlength] at hfold
      exact ⟨s'', calls'', unused'', active'', foldlM_cons_eq_ok.mpr ⟨_, hrecord, hfold⟩, hresult⟩
    · obtain ⟨s', calls', unused', active', hfold, hresult⟩ :=
        ih calls (done ++ [r]) hsplit' hlists h
      rw [hlength] at hfold
      exact ⟨s', calls', unused', active', foldlM_cons_eq_ok.mpr
        ⟨_, handleRecord_of_not_matches hr, hfold⟩, hresult⟩

theorem accounts_timedOut {rd : Nat} {rest : List Nat} (hlists : s.Lists unused (rd :: rest))
    (hlists' : s'.Lists (rd :: unused) rest) (hreleased : Released s s' rd)
    (h : Accounts s ledger) : Accounts s' (ledger.report records origins (.timedOut s)) := by
  have hfirst := hlists.walk.1
  have hactive := hlists.actives_eq ▸ mem_cons_self
  have herase := erase_cons_head rd rest
  refine h.complete hactive (mem_actives_erase hlists (herase.symm ▸ hlists')) hreleased
    (lt_of_mem_actives hlists) hfirst fun issue hissue => ?_
  obtain ⟨_, hissue', harg⟩ := h.active rd hactive
  cases hissue.symm.trans hissue'
  refine ⟨hfirst.trans (mem_of_lastIssue hissue).2.symm, ?_, rfl, rfl⟩
  rw [harg, ← hfirst]
  rfl

theorem accounts_expire (now : Nat) (hlists : s.Lists unused active)
    (h : Accounts s (calls.foldl (report records origins) ledger)) :
    ∃ s' calls' unused' active', expire now (2 ^ 64) (s, calls) = .ok (s', calls') ∧
      s'.Lists unused' active' ∧
      Accounts s' (calls'.foldl (report records origins) ledger) := by
  have hfuel : active.length < 2 ^ 64 := by
    have hlength := hlists.length_eq
    have hcount := cfg.count_lt
    omega
  obtain ⟨s', calls', unused', active', hexpire, hlists', h', -⟩ := hlists.expire now calls hfuel
    (fun s calls => Accounts s (calls.foldl (report records origins) ledger))
    (fun s calls unused rd rest s' h hlists hlists' hreleased => by
      rw [foldl_append]
      exact accounts_timedOut hlists hlists' hreleased h) h
  exact ⟨s', calls', unused', active', hexpire, hlists', h'⟩

/-! ## Runs -/

section
variable {acc acc' : Client cfg α × Ledger cfg α} {e : Exchange α} {exchanges : List (Exchange α)}

/-- The lists are intact, and the accounts are in order. -/
def InOrder (acc : Client cfg α × Ledger cfg α) : Prop :=
  (∃ unused active, acc.1.descriptors.Lists unused active) ∧ Accounts acc.1.descriptors acc.2

theorem inOrder_initRds {c : Client cfg α} {descriptors : Descriptors cfg α}
    (hinit : c.descriptors = descriptors.initRds) : InOrder (c, ⟨[], []⟩) := by
  unfold InOrder
  rw [hinit]
  exact ⟨⟨_, [], descriptors.lists_initRds⟩, accounts_initRds descriptors⟩

variable {now : Nat}

theorem inOrder_request {q : RequestArguments α} (h : InOrder acc)
    (hstep : exchange acc (.request now q) = .ok acc') : InOrder acc' := by
  obtain ⟨⟨rd, c⟩, hcall, hstep⟩ := bind_eq_ok.mp hstep
  cases hstep
  obtain ⟨⟨unused, active, hlists⟩, haccounts⟩ := h
  obtain ⟨rfl, heq⟩ | hallocate := appendRequest_eq_ok hcall
  · rw [if_pos rfl]
    unfold InOrder
    rw [heq]
    exact ⟨⟨unused, active, hlists⟩, haccounts⟩
  · obtain ⟨_, rfl⟩ := hlists.exists_cons_of_allocateRd hallocate
    obtain ⟨_, hallocate', hlists', hepoch, -, harg⟩ := hlists.allocateRd now q.arg
    cases hallocate.symm.trans hallocate'
    have hrd := hlists.lt (mem_append_left _ mem_cons_self)
    have hunused : rd ∉ acc.1.descriptors.actives := by
      rw [hlists.actives_eq]
      exact fun hin => (nodup_append.mp hlists.nodup).2.2 rd mem_cons_self rd hin rfl
    rw [if_neg (ne_null hrd)]
    refine ⟨⟨_, _, hlists'⟩, haccounts.allocate hrd hunused (fun y => ?_) hepoch harg⟩
    rw [hlists'.actives_eq, hlists.actives_eq, mem_append, mem_singleton]

theorem inOrder_handleResponse {received : Nat → List PacketBuffer} (h : InOrder acc)
    (hgenuine : Genuine (2 ^ 16 - 1) acc (.handleResponse now received origins)) :
    ∃ acc', exchange acc (.handleResponse now received origins) = .ok acc' ∧ InOrder acc' := by
  obtain ⟨⟨_, _, hlists⟩, haccounts⟩ := h
  obtain ⟨_, _, _, _, hrecords, hlists₁, h₁⟩ :=
    accounts_records hgenuine [] [] _ rfl hlists haccounts
  obtain ⟨_, _, unused₂, active₂, hexpire, hlists₂, h₂⟩ := accounts_expire now hlists₁ h₁
  obtain ⟨_, hc', hdescriptors, -⟩ := handleResponse_returns hrecords hexpire
  subst hdescriptors
  exact ⟨_, bind_eq_ok.mpr ⟨_, hc', rfl⟩, ⟨unused₂, active₂, hlists₂⟩, h₂⟩

theorem exchange_returns (h : InOrder acc) (hgenuine : Genuine (2 ^ 16 - 1) acc e)
    (hpermitted : Permitted acc e) : ∃ acc', exchange acc e = .ok acc' := by
  cases e with
  | request now q =>
    obtain ⟨⟨_, _, hlists⟩, -⟩ := h
    obtain ⟨_, _, rfl⟩ := exists_cons_of_ne_nil (hlists.canRequest_iff.mp hpermitted)
    obtain ⟨_, hallocate, -⟩ := hlists.allocateRd now q.arg
    obtain ⟨_, _, hcall⟩ := appendRequest_returns hallocate
    exact ⟨_, bind_eq_ok.mpr ⟨_, hcall, rfl⟩⟩
  | handleResponse =>
    obtain ⟨acc', hstep, -⟩ := inOrder_handleResponse h hgenuine
    exact ⟨acc', hstep⟩

theorem inOrder_exchange (h : InOrder acc) (hgenuine : Genuine (2 ^ 16 - 1) acc e)
    (hstep : exchange acc e = .ok acc') : InOrder acc' := by
  cases e with
  | request => exact inOrder_request h hstep
  | handleResponse =>
    obtain ⟨_, hstep', h'⟩ := inOrder_handleResponse h hgenuine
    cases hstep.symm.trans hstep'
    exact h'

theorem InOrder.throughout (h : InOrder acc)
    (hgenuine : EveryExchange (Genuine (2 ^ 16 - 1)) acc exchanges) : Throughout acc exchanges := by
  induction exchanges generalizing acc with
  | nil => exact h.2.once
  | cons _ _ ih =>
    refine ⟨h.2.once, exchange_returns h hgenuine.1, fun acc' hstep => ?_⟩
    exact ih (inOrder_exchange h hgenuine.1 hstep) (hgenuine.2 acc' hstep)

end

/-- **Requests complete exactly once** if no response comes after `2 ^ 16 - 1` reuses of its
descriptor. -/
theorem throughout_exactlyOnce (c : Client cfg α) (descriptors : Descriptors cfg α)
    (exchanges : List (Exchange α)) (hinit : c.descriptors = descriptors.initRds)
    (hgenuine : EveryExchange (Genuine (2 ^ 16 - 1)) (c, ⟨[], []⟩) exchanges) :
    Throughout (c, ⟨[], []⟩) exchanges :=
  (inOrder_initRds hinit).throughout hgenuine

/-! ## A response that comes too late -/

section
variable {P : Client cfg α × Ledger cfg α → Exchange α → Prop}
  {acc acc' : Client cfg α × Ledger cfg α} {l₁ l₂ : List (Exchange α)}

theorem everyExchange_append (h₁ : EveryExchange P acc l₁)
    (h₂ : ∀ acc', l₁.foldlM exchange acc = .ok acc' → EveryExchange P acc' l₂) :
    EveryExchange P acc (l₁ ++ l₂) := by
  induction l₁ generalizing acc with
  | nil => exact h₂ acc rfl
  | cons _ _ ih =>
    refine ⟨h₁.1, fun acc₁ hstep => ih (h₁.2 acc₁ hstep) fun acc' hrun => ?_⟩
    exact h₂ acc' (foldlM_cons_eq_ok.mpr ⟨acc₁, hstep, hrun⟩)

theorem Throughout.append (h : Throughout acc (l₁ ++ l₂))
    (hrun : l₁.foldlM exchange acc = .ok acc') : Throughout acc' l₂ := by
  induction l₁ generalizing acc with
  | nil => exact foldlM_nil_eq_ok.mp hrun ▸ h
  | cons _ _ ih =>
    obtain ⟨acc₁, hstep, hrun⟩ := foldlM_cons_eq_ok.mp hrun
    exact ih (h.2.2 acc₁ hstep) hrun

end

end Client

def noopRequest (n : Nat) : RequestArguments Nat :=
  ⟨.kNoopRead, 0, fun _ => 0, 0, fun _ => 0, 0, n⟩

/-- A request in the `n`-th millisecond, which times out when that ends. -/
def timedOutRequest (n : Nat) : List (Exchange Nat) :=
  [.request (1000 * n) (noopRequest n), .handleResponse (1000 * (n + 1)) (fun _ => []) fun _ => 0]

def timedOutRequests : Nat → List (Exchange Nat)
  | 0 => []
  | n + 1 => timedOutRequests n ++ timedOutRequest n

theorem responses_nil (c : Client oneDescriptor Nat) : (c.responses fun _ => []) = [] := by
  simp [responses]

variable {acc : Client oneDescriptor Nat × Ledger oneDescriptor Nat}

theorem genuine_timedOutRequest : EveryExchange (Genuine bound) acc (timedOutRequest n) := by
  refine ⟨trivial, fun acc₁ _ => ⟨fun k r hr => ?_, fun _ _ => trivial⟩⟩
  rw [responses_nil] at hr
  cases hr

theorem genuine_timedOutRequests (n : Nat) :
    EveryExchange (Genuine bound) acc (timedOutRequests n) := by
  induction n with
  | zero => trivial
  | succ _ ih => exact everyExchange_append ih fun acc' _ => genuine_timedOutRequest

/-- The only descriptor is unused again, and the client still has its endpoint. -/
def Quiet (acc : Client oneDescriptor Nat × Ledger oneDescriptor Nat) (n : Nat) : Prop :=
  InOrder acc ∧ acc.1.descriptors.Lists [0] [] ∧ acc.2.issues.length = n ∧ acc.1.endpointCount = 1

theorem quiet_freshClient : Quiet (freshClient, ⟨[], []⟩) 0 :=
  ⟨inOrder_initRds (c := freshClient) (@Eq.refl _ rawDescriptors.initRds),
    rawDescriptors.lists_initRds, rfl, rfl⟩

theorem exists_request (h : Quiet acc n) (hn : 1000 * (n + 1) < 2 ^ 64) :
    ∃ acc₁, exchange acc (.request (1000 * n) (noopRequest n)) = .ok acc₁ ∧
      InOrder acc₁ ∧ acc₁.1.descriptors.Lists [] [0] ∧
      acc₁.1.descriptors.expireTime 0 = 1000 * (n + 1) ∧ acc₁.2.issues.length = n + 1 ∧
      acc₁.1.endpointCount = 1 := by
  obtain ⟨horder, hlists, hlength, hcount⟩ := h
  obtain ⟨s₁, hallocate, hlists₁, -, hexpire₁, -⟩ := hlists.allocateRd (1000 * n) n
  have hexpires : s₁.expireTime 0 = 1000 * (n + 1) := by
    rw [hexpire₁, Function.update_self]
    exact mod_eq_of_lt hn
  have hfits : roundup8 (noopRequest n).keyLength + roundup8 (noopRequest n).valueLength ≤
      RequestBatchBuilder.kMaxValueLength := by
    change roundup8 0 + roundup8 0 ≤ _
    decide
  obtain ⟨c₁, hc₁, rfl, hcount₁⟩ := appendRequest_of_fits (c := acc.1)
    (q := noopRequest n) hallocate hfits
  have hstep : exchange acc (.request (1000 * n) (noopRequest n)) =
      .ok (c₁, acc.2.issue 0 (c₁.descriptors.epoch 0) n) :=
    bind_eq_ok.mpr ⟨(0, c₁), hc₁,
      congrArg (fun ledger => Except.ok (c₁, ledger)) (if_neg (by decide))⟩
  exact ⟨_, hstep, inOrder_request horder hstep, hlists₁, hexpires,
    congrArg (· + 1) hlength, hcount₁.trans hcount⟩

theorem quiet_timedOutRequest (h : Quiet acc n) (hn : 1000 * (n + 1) < 2 ^ 64) :
    ∃ acc', (timedOutRequest n).foldlM exchange acc = .ok acc' ∧ Quiet acc' (n + 1) := by
  obtain ⟨⟨c₁, ledger₁⟩, hstep₁, horder₁, hlists₁, hexpires, hlength, hcount⟩ := exists_request h hn
  -- nothing is received, and the request is overdue
  have hrecords : (c₁.responses fun _ => []).zipIdx.foldlM handleRecord
      (c₁.descriptors, []) = .ok (c₁.descriptors, []) := by
    rw [responses_nil]
    rfl
  obtain ⟨s₂, calls, unused, active, hexpire, hlists₂, htime, hend⟩ :=
    hlists₁.expire (1000 * (n + 1)) [] (show [0].length < 2 ^ 64 by decide)
      (fun s _ => s.expireTime 0 = 1000 * (n + 1))
      (fun s _ _ _ _ s' htime _ _ hreleased => (hreleased.expireTime 0 one_pos).trans htime)
      hexpires
  have hactive : active = [] := by
    cases active with
    | nil => rfl
    | cons rd =>
      have hrd := hlists₂.lt (mem_append_right _ mem_cons_self)
      have hfirst := hlists₂.walk.1.trans (lt_one_iff.mp hrd)
      refine absurd ?_ (hend.resolve_left (cons_ne_nil _ _))
      unfold overdue
      rw [hfirst, htime, Bool.or_eq_true, decide_eq_true_iff]
      right
      unfold sub64
      omega
  subst hactive
  have hunused : unused = [0] := by
    have hperm := hlists₂.perm
    rw [append_nil] at hperm
    exact perm_singleton.mp hperm
  subst hunused
  obtain ⟨c₂, hc₂, rfl, hcount₂⟩ := handleResponse_returns hrecords hexpire
  have hstep₂ : exchange (c₁, ledger₁)
      (.handleResponse (1000 * (n + 1)) (fun _ => []) fun _ => 0) = .ok (c₂, calls.foldl
        (report (c₁.responses fun _ => []) fun _ => 0) ledger₁) :=
    bind_eq_ok.mpr ⟨(c₂, calls), hc₂, rfl⟩
  refine ⟨_, foldlM_cons_eq_ok.mpr ⟨_, hstep₁, foldlM_cons_eq_ok.mpr ⟨_, hstep₂, rfl⟩⟩,
    inOrder_exchange horder₁ ?_ hstep₂, hlists₂, ?_, hcount₂.trans hcount⟩
  · exact (genuine_timedOutRequest (n := n)).2 _ hstep₁ |>.1
  · rw [issues_report]
    exact hlength

theorem quiet_timedOutRequests (hn : n ≤ 2 ^ 16) :
    ∃ acc, (timedOutRequests n).foldlM exchange (freshClient, ⟨[], []⟩) = .ok acc ∧
      Quiet acc n := by
  induction n with
  | zero => exact ⟨_, rfl, quiet_freshClient⟩
  | succ _ ih =>
    obtain ⟨acc, hrun, hquiet⟩ := ih (le_of_succ_le hn)
    obtain ⟨acc', hrun', hquiet'⟩ := quiet_timedOutRequest hquiet (by omega)
    exact ⟨acc', foldlM_append_eq_ok.mpr ⟨acc, hrun, hrun'⟩, hquiet'⟩

/-- The first of `2 ^ 16` requests is answered after the last has timed out. -/
def lateResponse : Exchange Nat :=
  .handleResponse (1000 * (2 ^ 16 + 1)) (fun _ => [firstResponse]) fun _ => 0

section LateResponse
variable {acc : Client oneDescriptor Nat × Ledger oneDescriptor Nat}

theorem rd_eq_zero (h : Numbered oneDescriptor acc.2.issues) {issue : Issue Nat}
    (hissue : issue ∈ acc.2.issues) : issue.rd = 0 := by
  obtain ⟨-, -, -, -, -, hlt, -⟩ := h.split hissue
  exact lt_one_iff.mp hlt

theorem exists_first_issue (haccounts : Accounts acc.1.descriptors acc.2)
    (hlength : acc.2.issues.length = n + 1) :
    ∃ issue ∈ acc.2.issues, issue.number = 0 ∧ issue.opaqueNumber = 0 ∧ acc.2.reuses issue ≤ n := by
  obtain ⟨issue, hissue, hnumber⟩ := haccounts.numbered.exists_number (k := 0) (by omega)
  obtain ⟨_, earlier, hsplit, -, hearlier, -, hepoch⟩ := haccounts.numbered.split hissue
  have hnil := eq_nil_iff_forall_not_mem.mpr fun i hi => by
    have := hearlier i hi
    omega
  subst hnil
  refine ⟨issue, hissue, hnumber, ?_, ?_⟩
  · unfold Issue.opaqueNumber
    rw [rd_eq_zero haccounts.numbered hissue, hepoch]
    rfl
  · rw [hsplit, length_append, length_singleton] at hlength
    unfold reuses
    rw [hsplit, countP_append, countP_cons_of_neg (by simp), countP_nil]
    exact (countP_le_length).trans (by omega)

theorem genuine_firstResponse (haccounts : Accounts acc.1.descriptors acc.2)
    (hlength : acc.2.issues.length = n + 1) (hn : n < bound) (hcount : acc.1.endpointCount = 1) :
    Genuine bound acc (.handleResponse now (fun _ => [firstResponse]) fun _ => 0) := by
  intro k r hr
  obtain ⟨r₁, hresponses, hcode, -⟩ := exists_responses_firstResponse hcount
  rw [hresponses] at hr
  obtain rfl : r = r₁ := mem_singleton.mp (mem_of_getElem? hr)
  obtain ⟨issue, hissue, hnumber, hzero, hreuses⟩ := exists_first_issue haccounts hlength
  exact ⟨issue, hissue, hnumber, hcode.trans hzero.symm, lt_of_le_of_lt hreuses hn⟩

theorem epoch_eq_zero (h : Quiet acc (2 ^ 16)) : acc.1.descriptors.epoch 0 = 0 := by
  obtain ⟨⟨-, haccounts⟩, hlists, hlength, -⟩ := h
  have htaken : taken acc.2.issues 0 = acc.2.issues.length :=
    countP_eq_length.mpr fun issue hissue =>
      decide_eq_true (rd_eq_zero haccounts.numbered hissue)
  rw [haccounts.epoch 0 one_pos, hlists.actives_eq, if_neg not_mem_nil, htaken, hlength]
  decide

theorem not_throughout_of_quiet (h : Quiet acc (2 ^ 16)) : ¬Throughout acc [lateResponse] := by
  rintro ⟨honce, hreturns, hthroughout⟩
  obtain ⟨⟨_, _⟩, hstep⟩ := hreturns trivial
  have honce' := hthroughout _ hstep
  obtain ⟨⟨_, calls⟩, hcall, hstep⟩ := bind_eq_ok.mp hstep
  cases hstep
  have hepoch := epoch_eq_zero h
  obtain ⟨⟨-, haccounts⟩, hlists, hlength, hcount⟩ := h
  -- the last request is completed
  obtain ⟨last, _, hissues⟩ := exists_cons_of_length_pos (hlength ▸ Nat.two_pow_pos 16)
  have hmem := hissues ▸ mem_cons_self
  have hrd := rd_eq_zero haccounts.numbered hmem
  have hlast : acc.2.lastIssue 0 = some last := by
    unfold lastIssue
    rw [hissues]
    exact find?_cons_of_pos (decide_eq_true hrd)
  have hdone : (acc.2.reportsOf last).length = 1 := by
    obtain ⟨⟨hactive, -⟩, -⟩ | ⟨-, report, hreports, -⟩ := honce last hmem
    · rw [hlists.actives_eq] at hactive
      cases hactive
    · rw [hreports]
      rfl
  -- the response matches its descriptor
  obtain ⟨r, hresponses, -, hzero, hfirst⟩ := exists_responses_firstResponse hcount
  have hr : acc.1.descriptors.Matches r := by
    unfold Matches
    rw [hzero, hfirst]
    exact ⟨one_pos, hepoch⟩
  obtain ⟨_, hrecords, hexpire⟩ := handleResponse_eq_ok hcall
  rw [hresponses] at hrecords
  obtain ⟨_, hrecord, hnil⟩ := foldlM_cons_eq_ok.mp hrecords
  cases hnil
  rw [handleRecord_of_matches hr] at hrecord
  obtain ⟨_, -, hrecord⟩ := bind_eq_ok.mp hrecord
  cases hrecord
  have hin := expire_calls hexpire mem_cons_self
  have hlast' : acc.2.lastIssue r.getRd = some last := by rw [hzero, hlast]
  have hmore := reportsOf_length_lt (acc.1.responses fun _ => [firstResponse])
    (fun _ => 0) hin hlast'
  obtain ⟨-, hreports⟩ | ⟨-, _, hreports, -⟩ := honce' last ((issues_report calls).symm ▸ hmem)
  · rw [hreports] at hmore
    exact absurd hmore (not_lt_zero _)
  · rw [hreports, hdone] at hmore
    exact absurd hmore (lt_irrefl 1)

end LateResponse

theorem late_timedOutRequests (hn : n = 2 ^ 16) :
    EveryExchange (Genuine (2 ^ 16)) (freshClient, ⟨[], []⟩)
        (timedOutRequests n ++ [lateResponse]) ∧
      ¬Throughout (freshClient, ⟨[], []⟩) (timedOutRequests n ++ [lateResponse]) := by
  obtain ⟨_, hrun, hquiet⟩ := quiet_timedOutRequests (le_of_eq hn)
  rw [hn] at hquiet
  refine ⟨everyExchange_append (genuine_timedOutRequests n) fun acc' hrun' => ?_,
    fun h => not_throughout_of_quiet hquiet (h.append hrun)⟩
  cases hrun.symm.trans hrun'
  obtain ⟨⟨-, haccounts⟩, -, hlength, hcount⟩ := hquiet
  refine ⟨genuine_firstResponse haccounts (n := 2 ^ 16 - 1) hlength ?_ hcount, fun _ _ => trivial⟩
  omega

/-- After as many requests as there are epochs, a late response is taken for a new one. -/
theorem not_throughout_lateResponse : freshClient.descriptors = rawDescriptors.initRds ∧
      EveryExchange (Genuine (2 ^ 16)) (freshClient, ⟨[], []⟩)
        (timedOutRequests (2 ^ 16) ++ [lateResponse]) ∧
      ¬Throughout (freshClient, ⟨[], []⟩) (timedOutRequests (2 ^ 16) ++ [lateResponse]) :=
  ⟨rfl, late_timedOutRequests rfl⟩

/-- A request, and the response to it. -/
def answeredRequest : List (Exchange Nat) :=
  [.request (1000 * 0) (noopRequest 0), .handleResponse 1 (fun _ => [firstResponse]) fun _ => 0]

/-- The request is completed once. -/
theorem throughout_answeredRequest : Throughout (freshClient, ⟨[], []⟩) answeredRequest := by
  refine throughout_exactlyOnce freshClient rawDescriptors answeredRequest rfl ?_
  refine ⟨trivial, fun acc₁ hstep => ⟨?_, fun _ _ => trivial⟩⟩
  obtain ⟨_, hstep', ⟨-, haccounts⟩, -, -, hlength, hcount⟩ :=
    exists_request quiet_freshClient (by decide)
  cases hstep.symm.trans hstep'
  exact genuine_firstResponse haccounts hlength (by decide) hcount

end Testbed.Mica
