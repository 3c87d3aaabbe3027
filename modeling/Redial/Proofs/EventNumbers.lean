import Redial.Proofs.Readers
import Redial.Proofs.Signatures

/-!
# The numbers of events

All calls of an exchange draw the numbers of their events from one counter, which counts from zero
if nobody has drawn before. Whatever happens on the exchange, the events that were published bear
the numbers from the first one on, each of them once, in the order of their publication. A reader of
a feed receives a part of the events in this order, so the numbers that it sees rise, and if all
events go to its feed it misses a number only where it is told so.
-/

namespace Redial

open StateTransition

/-- Of some published events those on one feed. -/
def publishedOn (feed : FeedId) (news : List (FeedId × Event)) : List Event :=
  news.filterMap fun p => if p.1 = feed then some p.2 else none

lemma publishedOn_append (feed : FeedId) (first rest : List (FeedId × Event)) :
    publishedOn feed (first ++ rest) = publishedOn feed first ++ publishedOn feed rest :=
  List.filterMap_append

lemma getElem?_modify_feed {feeds : List (Feed Event)} {feed : FeedId} {g : Feed Event}
    (h : feeds[feed]? = some g) (target : FeedId) (φ : Feed Event → Feed Event) :
    (feeds.modify target φ)[feed]? = some (if target = feed then φ g else g) := by
  rw [List.getElem?_modify, h]
  rfl

/-- A feed takes in the events that are published on it. -/
lemma getElem?_sendAll {feeds : List (Feed Event)} {feed : FeedId} {g : Feed Event}
    (h : feeds[feed]? = some g) (news : List (FeedId × Event)) :
    (sendAll feeds news)[feed]? = some ((publishedOn feed news).foldl Feed.send g) := by
  induction news generalizing feeds g with
  | nil => exact h
  | cons p news ih =>
    obtain ⟨target, e⟩ := p
    have hrest := ih (getElem?_modify_feed h target (·.send e))
    unfold sendAll publishedOn at hrest ⊢
    rw [List.foldl_cons, hrest, List.filterMap_cons]
    dsimp only
    split <;> rfl

lemma publishedOn_of_all {feed : FeedId} {news : List (FeedId × Event)}
    (h : ∀ p ∈ news, p.1 = feed) : publishedOn feed news = news.map Prod.snd := by
  unfold publishedOn
  rw [← List.filterMap_eq_map]
  refine List.filterMap_congr fun p hp => ?_
  rw [if_pos (h p hp)]
  rfl

lemma publishedOn_sublist (feed : FeedId) (news : List (FeedId × Event)) :
    (publishedOn feed news).Sublist (news.map Prod.snd) := by
  induction news with
  | nil => exact .slnil
  | cons p news ih =>
    unfold publishedOn at ih ⊢
    rw [List.filterMap_cons, List.map_cons]
    by_cases hp : p.1 = feed
    · rw [if_pos hp]
      exact ih.cons_cons _
    · rw [if_neg hp]
      exact ih.cons _

lemma Receipt.filterMap_readingOf (feed target : FeedId) (reader other : Nat)
    (reading : Reading Event) :
    [Receipt.mk target other reading].filterMap (readingOf feed reader) =
      if target = feed ∧ other = reader then [reading] else [] := by
  rw [List.filterMap_cons, readingOf]
  by_cases hown : target = feed ∧ other = reader
  · rw [if_pos hown, if_pos hown]
    rfl
  · rw [if_neg hown, if_neg hown]
    rfl

namespace Exchange

variable {x y z : Exchange} {receipts : List Receipt}

/-- Whatever happens, all numbers that are drawn are published, in their order. -/
lemma Happens.draws (h : x.Happens receipts y) : ∃ news, x.Draws news y := by
  have hnumbers {x y : Exchange} (h : x.Numbers y) : ∃ news, x.Draws news y := by
    obtain ⟨news, hnews⟩ := h
    exact ⟨news, hnews.toDraws⟩
  cases h with
  | step h => exact hnumbers (Numbers.step h)
  | deed x deed c => exact hnumbers (Numbers.perform x deed c)
  | release x c => exact hnumbers (Numbers.release x c)
  | setPresence x c => exact hnumbers (Numbers.modify x c _)
  | setTimes | addCall | openFeed | subscribe | unsubscribe | read => exact ⟨[], .none rfl rfl⟩

lemma Chronicle.draws (h : x.Chronicle receipts y) : ∃ news, x.Draws news y := by
  induction h with
  | nil => exact ⟨[], .none rfl rfl⟩
  | snoc _ hlast ih =>
    obtain ⟨first, hfirst⟩ := ih
    obtain ⟨rest, hrest⟩ := hlast.draws
    exact ⟨first ++ rest, hfirst.trans hrest⟩

/-- Every call that has told of something did so on its feed, and without a number if it has none. -/
def IsAtHome (x : Exchange) : Prop :=
  ∀ t ∈ x.tellings, ∃ call, x.call? t.call = some call ∧ t.place.map Prod.fst = call.feed

/-- A call signs what it tells of. -/
lemma IsAtHome.chronicle (h : x.IsAtHome) (hchronicle : x.Chronicle receipts y) : y.IsAtHome := by
  obtain ⟨hcalls, new, hnew, hsigned⟩ := Signs.chronicle hchronicle
  intro t ht
  rw [hnew] at ht
  rcases List.mem_append.mp ht with hold | hlast
  · obtain ⟨call, hcall, hplace⟩ := h t hold
    obtain ⟨after, hafter, -, hfeed⟩ := hcalls _ call hcall
    exact ⟨after, hafter, hplace.trans hfeed.symm⟩
  · obtain ⟨call, hcall, -, hplace⟩ := hsigned t hlast
    exact ⟨call, hcall, hplace⟩

variable {f g : Feed Event} {feed : FeedId} {r : Nat} {due : List Event}
  {heard : List (Reading Event)}

/-- A feed was like `f` when reader `r` came, and `due` was published on it from then until `x`. On
the way from `x` to `y` more is published, and then the feed has served the reader, who has received
`heard`. -/
def GoesOn (x y : Exchange) (feed : FeedId) (f : Feed Event) (r : Nat) (due : List Event)
    (heard : List (Reading Event)) : Prop :=
  ∃ news, x.Draws news y ∧ ∃ g, y.feeds[feed]? = some g ∧
    f.Serves r (due ++ publishedOn feed news) heard g

lemma Numbers.goesOn (h : x.Numbers y) (hg : x.feeds[feed]? = some g)
    (hserves : f.Serves r due heard g) : x.GoesOn y feed f r due heard := by
  obtain ⟨news, hnews⟩ := h
  refine ⟨news, hnews.toDraws, _, ?_, hserves.sendAll _⟩
  rw [hnews.feeds]
  exact getElem?_sendAll hg news

lemma Draws.goesOn (h : x.Draws [] y) (hg : y.feeds[feed]? = some g)
    (hserves : f.Serves r due heard g) : x.GoesOn y feed f r due heard := by
  have hnothing : due ++ publishedOn feed [] = due := List.append_nil due
  exact ⟨[], h, g, hg, by rwa [hnothing]⟩

/-- Whatever happens, the feed goes on to serve its reader. -/
lemma Happens.goesOn (h : x.Happens receipts y) (hg : x.feeds[feed]? = some g)
    (hserves : f.Serves r due heard g) :
    x.GoesOn y feed f r due (heard ++ receipts.filterMap (Receipt.readingOf feed r)) := by
  have hunread : heard ++ [].filterMap (Receipt.readingOf feed r) = heard := List.append_nil heard
  have hnumbers (h : x.Numbers y) :
      x.GoesOn y feed f r due (heard ++ [].filterMap (Receipt.readingOf feed r)) := by
    rw [hunread]
    exact h.goesOn hg hserves
  have hquiet {g' : Feed Event} (h : x.Draws [] y) (hg' : y.feeds[feed]? = some g')
      (hserves' : f.Serves r due heard g') :
      x.GoesOn y feed f r due (heard ++ [].filterMap (Receipt.readingOf feed r)) := by
    rw [hunread]
    exact h.goesOn hg' hserves'
  cases h with
  | step h => exact hnumbers (Numbers.step h)
  | deed _ deed c => exact hnumbers (Numbers.perform x deed c)
  | release _ c => exact hnumbers (Numbers.release x c)
  | setPresence _ c => exact hnumbers (Numbers.modify x c _)
  | setTimes | addCall => exact hnumbers (Numbers.of_journal rfl rfl rfl)
  | openFeed =>
    have hlt : feed < x.feeds.length := (List.getElem?_eq_some_iff.mp hg).1
    exact hquiet (.none rfl rfl) ((List.getElem?_append_left hlt).trans hg) hserves
  | subscribe _ target =>
    refine hquiet (.none rfl rfl) (getElem?_modify_feed hg target Feed.subscribe) ?_
    split
    · exact hserves.subscribe
    · exact hserves
  | unsubscribe _ target other =>
    refine hquiet (.none rfl rfl) (getElem?_modify_feed hg target (·.unsubscribe other)) ?_
    split
    · exact hserves.unsubscribe other
    · exact hserves
  | @read _ target other seen hseen =>
    rw [Receipt.filterMap_readingOf]
    by_cases htarget : target = feed
    · subst htarget
      rw [hg] at hseen
      obtain rfl := Option.some_inj.mp hseen
      have hlt : target < x.feeds.length := (List.getElem?_eq_some_iff.mp hg).1
      refine Draws.goesOn (.none rfl rfl) (List.getElem?_set_self hlt) ?_
      by_cases hother : other = r
      · rw [if_pos ⟨rfl, hother⟩, hother]
        exact hserves.read
      · rw [if_neg fun hboth => hother hboth.2, List.append_nil]
        exact hserves.read_other hother
    · rw [if_neg fun hboth => htarget hboth.1, List.append_nil]
      exact Draws.goesOn (.none rfl rfl) ((List.getElem?_set_ne htarget).trans hg) hserves

lemma Chronicle.goesOn (h : x.Chronicle receipts y) (hg : x.feeds[feed]? = some g)
    (hserves : f.Serves r [] [] g) :
    x.GoesOn y feed f r [] (receipts.filterMap (Receipt.readingOf feed r)) := by
  induction h with
  | nil => exact Draws.goesOn (.none rfl rfl) hg hserves
  | snoc _ hlast ih =>
    obtain ⟨first, hfirst, g', hg', hserves'⟩ := ih
    obtain ⟨rest, hrest, after, hafter, hserves''⟩ := hlast.goesOn hg' hserves'
    refine ⟨first ++ rest, hfirst.trans hrest, after, hafter, ?_⟩
    rwa [publishedOn_append, List.filterMap_append, List.nil_append]

section Draws

variable {news : List (FeedId × Event)} (h : x.Draws news y)
  (hserves : f.Serves r (publishedOn feed news) heard g)
include h hserves

lemma Draws.pairwise_placed :
    ((Reading.placed 0 heard).map (·.2.seq)).Pairwise (· < ·) := by
  have hpart := (hserves.sublist.trans (publishedOn_sublist feed news)).map Event.seq
  rw [List.map_map, List.map_map] at hpart
  have hrising : (news.map (·.2.seq)).Pairwise (· < ·) := by
    rw [h.numbers]
    exact List.pairwise_lt_range'
  exact hrising.sublist hpart

lemma Draws.seq_placed (hshared : ∀ p ∈ news, p.1 = feed) {p : Nat × Event}
    (hp : p ∈ Reading.placed 0 heard) : p.2.seq = x.nextSeq + p.1 := by
  have hplace := hserves.placed p hp
  rw [publishedOn_of_all hshared] at hplace
  have hlt : p.1 < news.length := by
    rw [← List.length_map (f := Prod.snd)]
    exact (List.getElem?_eq_some_iff.mp hplace).1
  have hseq := congrArg (Option.map Event.seq) hplace
  rw [← List.getElem?_map, List.map_map] at hseq
  have hnumber : (news.map (·.2.seq))[p.1]? = some (x.nextSeq + p.1) := by
    rw [h.numbers, List.getElem?_range' hlt, Nat.one_mul]
  exact Option.some_inj.mp (hseq.symm.trans hnumber)

end Draws

/-- Whatever number comes first, the events that were published bear the numbers from it on, in the
order of publication and without a gap, so each number that was drawn belongs to one event on one
feed; and what a call tells of goes to its feed, or takes no number if it has none. A reader that
comes at any time receives a part of what is published on its feed from then on, so that the numbers
rise. If nothing is published elsewhere, the number of each event that it receives is what one
expects after the events that it has received or was told to have missed. The feed has taken in just
what was published on it, unless the reader has left. -/
theorem event_numbers_are_gap_free {capacities : List Nat} {first : Nat} {past : List Receipt}
    {x : Exchange} (h : Chronicle (.withFeeds capacities first) past x) :
    x.published.map (·.2.seq) = List.range' first x.published.length ∧
    x.nextSeq = first + x.published.length ∧
    (∀ t ∈ x.tellings, ∃ call, x.call? t.call = some call ∧ t.place.map Prod.fst = call.feed) ∧
    ∀ {feed : FeedId} {f : Feed Event} {receipts : List Receipt} {y : Exchange},
      x.feeds[feed]? = some f →
      Chronicle { x with feeds := x.feeds.modify feed Feed.subscribe } receipts y →
      let r := f.readers.length
      let received := Reading.placed 0 (receipts.filterMap (Receipt.readingOf feed r))
      ∃ news, y.published = x.published ++ news ∧
        (received.map Prod.snd).Sublist (publishedOn feed news) ∧
        (received.map (·.2.seq)).Pairwise (· < ·) ∧
        ((∀ p ∈ news, p.1 = feed) → ∀ p ∈ received, p.2.seq = x.nextSeq + p.1) ∧
        ∃ g, y.feeds[feed]? = some g ∧ (g.readers[r]? = some none ∨
          g.sent = f.sent + (publishedOn feed news).length ∧
            g.kept <:+ f.kept ++ publishedOn feed news) := by
  obtain ⟨told, htold⟩ := h.draws
  have hpublished : x.published = told := htold.published
  refine ⟨?_, ?_, ?_, ?_⟩
  · rw [hpublished]
    exact htold.numbers
  · rw [hpublished]
    exact htold.nextSeq
  · have hnothing : IsAtHome (.withFeeds capacities first) :=
      fun _ ht => absurd ht List.not_mem_nil
    exact hnothing.chronicle h
  · intro feed f receipts y hf hlater r received
    have hcame := getElem?_modify_feed hf feed Feed.subscribe
    rw [if_pos rfl] at hcame
    obtain ⟨news, hnews, g, hg, hserves⟩ := hlater.goesOn hcame (.subscribe_self f)
    exact ⟨news, hnews.published, hserves.sublist, hnews.pairwise_placed hserves,
      fun hshared _ => hnews.seq_placed hserves hshared, g, hg,
      hserves.stays.imp_right fun hsince => ⟨hsince.sent, hsince.kept⟩⟩

/-- On an exchange that nobody has used, a call on a shared feed runs another one, which has a feed
of its own and panics, and disposes a third one, which has none. The shared feed keeps one event, so
its reader is told of a gap. -/
theorem event_numbers_of_nested_runs :
    let outer : Plan := { Plan.canceled with
      body := fun _ => .run 1 fun _ => .act .dispose 2 fun _ => .done (.error .canceled)
      feed := .shared 0 }
    let inner : Plan := { Plan.canceled with
      body := fun _ => .panic "broken"
      feed := .own }
    let x : Exchange :=
      (((Exchange.withFeeds [1] 0).addPlan outer true).addPlan inner true).addPlan .canceled
        true
    ∃ receipts y, Chronicle { x with feeds := x.feeds.modify 0 Feed.subscribe } receipts y ∧
      y.published.map (fun p => (p.1, p.2.seq)) = [(0, 0), (1, 1), (0, 2), (0, 3)] ∧
      y.published.map (·.2.seq) = List.range' 0 4 ∧
      (y.tellings.filter (·.place.isNone)).map (·.call) = [2] ∧
      let received := Reading.placed 0 (receipts.filterMap (Receipt.readingOf 0 0))
      received.map (fun p => (p.1, p.2.seq)) = [(2, 3)] ∧
        (received.map (·.2.seq)).Pairwise (· < ·) := by
  intro outer inner x
  have hbuilt : Chronicle (.withFeeds [1] 0) [] x :=
    ((Chronicle.addPlan _ _ _).trans (.addPlan _ _ _)).trans (.addPlan _ _ _)
  have hfeed : x.feeds[0]? = some (Feed.create 1) := rfl
  let came : Exchange := { x with feeds := x.feeds.modify 0 Feed.subscribe }
  have hnumbers : (came.run 0).2.published.map (fun p => (p.1, p.2.seq)) =
      [(0, 0), (1, 1), (0, 2), (0, 3)] := by decide +kernel
  have hmute : ((came.run 0).2.tellings.filter (·.place.isNone)).map (·.call) = [2] := by
    decide +kernel
  have hreceived : ((came.run 0).2.feeds[0]?.map fun f => (Reading.placed 0
      (((f.readAll 0).1.map (Receipt.mk 0 0)).filterMap (Receipt.readingOf 0 0))).map
        fun p => (p.1, p.2.seq)) = some [(2, 3)] := by decide +kernel
  have hran := Chronicle.run came 0
  -- Nothing below is to be computed.
  generalize (came.run 0).2 = ran at hnumbers hmute hreceived hran
  obtain ⟨f, hf, hreceived⟩ := Option.map_eq_some_iff.mp hreceived
  obtain ⟨y, hread, hjournal⟩ : ∃ y, ran.Chronicle ((f.readAll 0).1.map (Receipt.mk 0 0)) y ∧
      y.journal = ran.journal :=
    ⟨_, Session.chronicle_readAll 0 0 (f.kept.length + 1) hf, rfl⟩
  have hlater : came.Chronicle ((f.readAll 0).1.map (Receipt.mk 0 0)) y := hran.append hread
  have htellings : y.tellings = ran.tellings := by
    unfold tellings
    rw [hjournal]
  have hpublished : y.published = ran.published := by
    unfold published
    rw [htellings]
  have hcame : Chronicle (.withFeeds [1] 0) [] came :=
    hbuilt.trans (.single (.subscribe x 0))
  obtain ⟨hall, -⟩ := event_numbers_are_gap_free (hcame.append hlater)
  obtain ⟨news, -, -, hrising, -⟩ := (event_numbers_are_gap_free hbuilt).2.2.2 hfeed hlater
  have hcount : y.published.length = 4 := by
    rw [← List.length_map (f := fun p : FeedId × Event => (p.1, p.2.seq)), hpublished, hnumbers]
    rfl
  rw [hcount] at hall
  rw [← hpublished] at hnumbers
  rw [← htellings] at hmute
  exact ⟨_, y, hlater, hnumbers, hall, hmute, hreceived, hrising⟩

end Exchange

end Redial
