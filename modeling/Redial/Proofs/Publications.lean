import Redial.Proofs.Scenes

/-!
# Publications

A call with a feed draws a number for each event that it tells of, and the event goes to its feed at
once. So the numbers that are drawn in one operation and what the feeds take in by it are the same
list: whatever runs and user code do, the events they publish carry on the numbers without a gap.
-/

namespace Redial

open StateTransition

/-- An event that a call has told of: on which feed and under which number, if it has a feed. -/
structure Telling where
  call : CallId
  notice : Notice
  place : Option (FeedId × Nat)

/-- The event as it went to a feed. -/
def Telling.published? (t : Telling) : Option (FeedId × Event) :=
  t.place.map fun (feed, seq) => (feed, { t.notice with seq })

def Entry.telling? : Entry → Option Telling
  | told call notice place => some ⟨call, notice, place⟩
  | _ => none

/-- The feeds after some events have been sent, one after the other. -/
def sendAll (feeds : List (Feed Event)) (news : List (FeedId × Event)) : List (Feed Event) :=
  news.foldl (fun feeds (feed, e) => feeds.modify feed (·.send e)) feeds

lemma sendAll_append (feeds : List (Feed Event)) (first rest : List (FeedId × Event)) :
    sendAll feeds (first ++ rest) = sendAll (sendAll feeds first) rest :=
  List.foldl_append

namespace Exchange

/-- All that was told of, in order. -/
def tellings (x : Exchange) : List Telling := x.journal.reverse.filterMap Entry.telling?

/-- All events that were published, in order, with the feeds that took them in. -/
def published (x : Exchange) : List (FeedId × Event) := x.tellings.filterMap Telling.published?

/-- On the way from `x` to `y` some events are published. They take the next numbers in order, and
nothing else draws a number. -/
structure Draws (x : Exchange) (news : List (FeedId × Event)) (y : Exchange) : Prop where
  published : y.published = x.published ++ news
  numbers : news.map (·.2.seq) = List.range' x.nextSeq news.length
  nextSeq : y.nextSeq = x.nextSeq + news.length

/-- Each event goes to its feed as well, and there is nothing else that the feeds notice. -/
structure Publishes (x : Exchange) (news : List (FeedId × Event)) (y : Exchange) : Prop extends
    Draws x news y where
  feeds : y.feeds = sendAll x.feeds news

/-- On the way from `x` to `y` nothing but events goes to the feeds, under the next numbers. -/
def Numbers (x y : Exchange) : Prop := ∃ news, x.Publishes news y

variable {x y z : Exchange} {c : CallId}

lemma tellings_note (x : Exchange) (entry : Entry) :
    (x.note entry).tellings = x.tellings ++ entry.telling?.toList := by
  unfold tellings note
  rw [List.reverse_cons, List.filterMap_append]
  cases entry <;> rfl

lemma published_note (x : Exchange) (entry : Entry) :
    (x.note entry).published =
      x.published ++ (entry.telling?.bind Telling.published?).toList := by
  unfold published
  rw [tellings_note, List.filterMap_append]
  cases entry.telling? with
  | none => rfl
  | some t => cases h : t.published? <;> simp [h]

section Draws

variable {first rest : List (FeedId × Event)}

lemma Draws.trans (h : x.Draws first y) (h' : y.Draws rest z) : x.Draws (first ++ rest) z where
  published := by rw [h'.published, h.published, List.append_assoc]
  numbers := by
    rw [List.map_append, h.numbers, h'.numbers, h.nextSeq, List.length_append, List.range'_append_1]
  nextSeq := by rw [h'.nextSeq, h.nextSeq, List.length_append, Nat.add_assoc]

lemma Draws.none (hpublished : y.published = x.published) (hseq : y.nextSeq = x.nextSeq) :
    x.Draws [] y where
  published := hpublished.trans (List.append_nil _).symm
  numbers := rfl
  nextSeq := hseq

end Draws

namespace Numbers

lemma trans (h : x.Numbers y) (h' : y.Numbers z) : x.Numbers z := by
  obtain ⟨first, hfirst⟩ := h
  obtain ⟨rest, hrest⟩ := h'
  have hdrawn := hfirst.toDraws.trans hrest.toDraws
  exact ⟨first ++ rest, hdrawn, by rw [hrest.feeds, hfirst.feeds, sendAll_append]⟩

lemma none (hpublished : y.published = x.published) (hseq : y.nextSeq = x.nextSeq)
    (hfeeds : y.feeds = x.feeds) : x.Numbers y :=
  ⟨[], .none hpublished hseq, hfeeds⟩

/-- Only the journal, the feeds and the counter matter. -/
lemma of_journal (hjournal : y.journal = x.journal) (hseq : y.nextSeq = x.nextSeq)
    (hfeeds : y.feeds = x.feeds) : x.Numbers y := by
  refine none ?_ hseq hfeeds
  unfold published tellings
  rw [hjournal]

lemma refl (x : Exchange) : x.Numbers x := of_journal rfl rfl rfl

lemma note (x : Exchange) {entry : Entry} (h : entry.isTold = false) : x.Numbers (x.note entry) := by
  refine none ?_ rfl rfl
  rw [published_note]
  cases entry with
  | told => cases h
  | _ => exact List.append_nil _

lemma modify (x : Exchange) (c : CallId) (f : Call → Call) : x.Numbers (x.modify c f) :=
  of_journal rfl rfl rfl

lemma countRetry (x : Exchange) (feed : FeedId) : x.Numbers (x.countRetry feed) := by
  unfold Exchange.countRetry
  split
  · split
    · exact of_journal rfl rfl rfl
    · exact refl x
  · exact refl x

/-- The one operation that draws a number publishes the event on the spot. -/
lemma tell (x : Exchange) (c : CallId) (notice : Notice) : x.Numbers (x.tell c notice) := by
  unfold Exchange.tell Exchange.publish
  split
  · exact refl x
  · rename_i call _
    dsimp only
    split
    · refine none ?_ rfl rfl
      rw [published_note]
      exact List.append_nil _
    · rename_i feed _
      let told : Notice := { notice with call := some call.plan.name }
      let event : Event := { told with seq := x.nextSeq }
      have hsent : x.Publishes [(feed, event)]
          { x.note (.told c told (some (feed, x.nextSeq))) with
            feeds := x.feeds.modify feed (·.send event), nextSeq := x.nextSeq + 1 } :=
        ⟨⟨published_note x _, rfl, rfl⟩, rfl⟩
      split
      · exact trans ⟨_, hsent⟩ (countRetry _ feed)
      · exact ⟨_, hsent⟩

lemma dispose (x : Exchange) (c : CallId) : x.Numbers (x.dispose c).2 := by
  rw [Exchange.dispose_eq_tell]
  split
  · exact refl x
  · dsimp only
    split
    · exact (modify x c _).trans (tell _ _ _)
    · exact modify x c _

lemma release (x : Exchange) (c : CallId) : x.Numbers (x.release c) :=
  (dispose x c).trans (modify _ c _)

lemma perform (x : Exchange) (deed : Deed) (c : CallId) : x.Numbers (x.perform deed c).2 := by
  rcases perform_cases x deed c with hsame | hdisposed | ⟨_, -, -, hdropped⟩
  · rw [hsame]
    exact refl x
  · rw [hdisposed]
    exact dispose x c
  · rw [hdropped]
    exact (modify x c _).trans (release _ c)

lemma performFor (x : Exchange) (deed : Deed) (c : CallId) :
    x.Numbers (x.performFor deed c).2 := by
  unfold Exchange.performFor
  split
  · exact perform x deed c
  · exact refl x

lemma ring (x : Exchange) (alarm : Alarm) : x.Numbers (x.ring alarm) :=
  (dispose x alarm.target).trans (of_journal rfl rfl rfl)

lemma elapse (x : Exchange) (nanos : Nat) : x.Numbers (x.elapse nanos) := by
  have hlater : x.Numbers { x with clock := x.clock + nanos } := of_journal rfl rfl rfl
  unfold Exchange.elapse
  dsimp only
  split
  · split
    · exact hlater.trans (ring _ _)
    · exact hlater
  · exact hlater

lemma setTimer (x : Exchange) (timer : Nat) : x.Numbers { x with timer } := of_journal rfl rfl rfl

lemma wait (x : Exchange) (c : CallId) (delay : Duration) : x.Numbers (x.wait c delay) := by
  unfold Exchange.wait
  split
  · exact refl x
  · dsimp only
    split
    · split
      · split
        · exact (setTimer x _).trans (ring _ _)
        · exact ((setTimer x _).trans (ring _ _)).trans (setTimer _ _)
      · exact setTimer x _
    · exact setTimer x _

lemma start (x : Exchange) (c : CallId) : x.Numbers (x.start c).2 := by
  unfold Exchange.start
  split
  · exact refl x
  · exact modify x c _

lemma stepIntoBody (x : Exchange) (c : CallId) (rest : Output → Course) :
    x.Numbers (x.stepIntoBody c rest).2 := by
  unfold Exchange.stepIntoBody
  split
  · exact refl x
  · exact (modify x c _).trans (note _ rfl)

lemma stepIntoPredicate (x : Exchange) (c : CallId) (fault : Fault) (rest : Bool → Course) :
    x.Numbers (x.stepIntoPredicate c fault rest).2 := by
  unfold Exchange.stepIntoPredicate
  split
  · exact refl x
  · split
    · exact refl x
    · exact modify x c _

lemma stepIntoCallback (x : Exchange) (c : CallId) (verdict : Verdict) (rest : Course) :
    x.Numbers (x.stepIntoCallback c verdict rest).2 := by
  unfold Exchange.stepIntoCallback
  split
  · split
    · exact refl x
    · exact (modify x c _).trans (note _ rfl)
  · split
    · exact refl x
    · exact (modify x c _).trans (note _ rfl)
  · exact refl x

lemma pushVerdict (x : Exchange) (c : CallId) (verdict : Verdict) :
    x.Numbers (x.pushVerdict c verdict).2 := by
  unfold Exchange.pushVerdict
  split
  · exact refl x
  · split
    · exact modify x c _
    · exact refl x
    · exact refl x

lemma popVerdict (x : Exchange) (c : CallId) : x.Numbers (x.popVerdict c).2 := by
  unfold Exchange.popVerdict
  split
  · exact refl x
  · exact modify x c _

lemma resume (x : Exchange) (asker : Asker) (c : CallId) (how : Except Halt Unit) :
    x.Numbers (asker.resume c how x).2 := by
  unfold Asker.resume
  split
  · exact modify x c _
  · exact (modify x c _).trans (note _ rfl)

lemma noteAny {α : Type} (x : Exchange) (sequel : Sequel α) (value : α) :
    x.Numbers (x.noteAny (sequel.entry value)) := by
  cases hentry : sequel.entry value with
  | none => exact refl x
  | some entry => exact note x (sequel.untold value entry hentry)

lemma stepRun (x : Exchange) (c : CallId) (course : Course) : x.Numbers (x.stepRun c course).2 := by
  cases course with
  | finished | panics | askDisposed | readClock => exact refl x
  | start => exact start x c
  | report notice next => exact tell x c notice
  | invoke => exact stepIntoBody x c _
  | dispatch =>
    rw [Exchange.stepRun]
    split
    · exact stepIntoBody x c _
    · exact refl x
  | consult => exact stepIntoPredicate x c _ _
  | sleep nanos => exact elapse x nanos
  | await delay => exact (wait x c delay).trans (note _ rfl)
  | push verdict =>
    have hpushed := pushVerdict x c verdict
    rw [Exchange.stepRun]
    split
    case h_1 heq | h_2 heq =>
      rw [heq] at hpushed
      exact hpushed
  | pop => exact popVerdict x c
  | callback => exact stepIntoCallback x c _ _

/-- Nothing comes between a number and its event, whatever step is made and however deep the runs
are nested. -/
theorem step {s t : Scene} (h : s.step = some t) : s.exchange.Numbers t.exchange := by
  obtain ⟨task, askers, x⟩ := s
  cases task with
  | run c course =>
    cases h
    exact stepRun x c course
  | code role c script sequel =>
    cases h
    cases script with
    | done value => exact noteAny x sequel value
    | panic text => exact refl x
    | act deed target next => exact (performFor x deed target).trans (note _ rfl)
    | run target next =>
      rw [Scene.stepCode]
      dsimp only
      split
      · split
        · exact note x rfl
        · exact modify x target _
      · exact note x rfl
  | ended c how =>
    cases askers with
    | nil => cases h
    | cons asker askers =>
      cases h
      exact resume x asker c how

end Numbers

end Exchange

end Redial
