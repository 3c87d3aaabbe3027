import Mathlib.Data.List.Basic
import Redial.Proofs.FanoutAccounts

/-!
# What a listening hub passes on

A hub that listens to a feed passes on the events of the feed in their order. What it has not passed
on it has yet to read, or the feed has overwritten it and the hub has complained about the gap. It
stops listening when nobody can send any more and everything that is kept has been passed on.
-/

namespace Redial

namespace Feed

variable {α : Type} {f g : Feed α} {published : List α} {place : Nat}

lemma readerCount_ne_zero {p : Nat} (h : f.readers[0]? = some (some p)) : f.readerCount ≠ 0 := by
  have hmem : some p ∈ f.readers.filter Option.isSome :=
    List.mem_filter.mpr ⟨List.mem_of_getElem? h, rfl⟩
  exact Nat.ne_of_gt (List.length_pos_of_mem hmem)

/-- Since it was like `f`, the feed has taken in some items, and its first reader is done with the
first of them, up to a place. -/
structure Since (f g : Feed α) (published : List α) (place : Nat) : Prop where
  size : g.size = f.size
  sent : g.sent = f.sent + published.length
  kept : g.kept <:+ f.kept ++ published
  reader : g.readers[0]? = some (some (f.sent + place))
  place_le : place ≤ published.length

lemma Since.refl (h : f.readers[0]? = some (some f.sent)) : f.Since f [] 0 where
  size := rfl
  sent := rfl
  kept := by simp
  reader := h
  place_le := Nat.le_refl _

lemma Since.send (h : f.Since g published place) (a : α) :
    f.Since (g.send a) (published ++ [a]) place := by
  have hreaders := readerCount_ne_zero h.reader
  obtain ⟨front, hfront⟩ := h.kept
  refine ⟨?_, ?_, ?_, ?_, ?_⟩
  · simpa [Feed.send, hreaders] using h.size
  · simp [Feed.send, hreaders, h.sent, Nat.add_assoc]
  · have hall : g.kept ++ [a] <:+ f.kept ++ (published ++ [a]) :=
      ⟨front, by rw [← List.append_assoc, hfront, List.append_assoc]⟩
    simpa [Feed.send, hreaders] using (List.drop_suffix _ _).trans hall
  · simpa [Feed.send, hreaders] using h.reader
  · rw [List.length_append]
    exact Nat.le_add_right_of_le h.place_le

/-- Who can send makes no difference to what was sent. -/
lemma Since.setSenders (h : f.Since g published place) (senders : List Bool) :
    f.Since { g with senders } published place :=
  ⟨h.size, h.sent, h.kept, h.reader, h.place_le⟩

lemma Since.setReader (h : f.Since g published place) {k : Nat} (hk : k ≤ published.length) :
    f.Since { g with readers := g.readers.set 0 (some (f.sent + k)) } published k where
  size := h.size
  sent := h.sent
  kept := h.kept
  reader := by
    have hlt : 0 < g.readers.length := (List.getElem?_eq_some_iff.1 h.reader).1
    simp [hlt]
  place_le := hk

lemma Since.getElem?_kept (h : f.Since g published place) (hread : g.oldest ≤ f.sent + place) :
    g.kept[f.sent + place - g.oldest]? = published[place]? := by
  obtain ⟨front, hfront⟩ := h.kept
  have hsent := h.sent
  have holdest := g.oldest_add_length_kept
  have hlength : front.length + g.kept.length = f.kept.length + published.length := by
    rw [← List.length_append, hfront, List.length_append]
  have hindex : front.length + (f.sent + place - g.oldest) = f.kept.length + place := by omega
  calc g.kept[f.sent + place - g.oldest]?
      = (front ++ g.kept)[front.length + (f.sent + place - g.oldest)]? := by
        rw [List.getElem?_append_right (Nat.le_add_right _ _), Nat.add_sub_cancel_left]
    _ = (f.kept ++ published)[f.kept.length + place]? := by rw [hfront, hindex]
    _ = published[place]? := by
        rw [List.getElem?_append_right (Nat.le_add_right _ _), Nat.add_sub_cancel_left]

/-- What the first reader finds: an item that it has yet to read, a gap that ends where the items
begin that are kept, or nothing, because it has read everything. -/
inductive Finds (f g : Feed α) (published : List α) (place : Nat) : Reading α × Feed α → Prop where
  | item {a : α} {after : Feed α} (ha : published[place]? = some a)
      (h : f.Since after published (place + 1)) (hsenders : after.senders = g.senders) :
      f.Finds g published place (.item a, after)
  | lagged {missed : Nat} {after : Feed α} (hmissed : 0 < missed)
      (hend : place + missed + f.size = published.length)
      (h : f.Since after published (place + missed)) (hsenders : after.senders = g.senders) :
      f.Finds g published place (.lagged missed, after)
  | empty (hend : place = published.length) (hopen : g.isOpen = true) :
      f.Finds g published place (.empty, g)
  | closed (hend : place = published.length) (hclosed : g.isOpen = false) :
      f.Finds g published place (.closed, g)

theorem Since.finds (h : f.Since g published place) :
    f.Finds g published place (g.read 0) := by
  have hsize := h.size
  have hsent := h.sent
  have holdest := g.oldest_add_length_kept
  unfold Feed.read
  rw [h.reader, Option.join_some]
  dsimp only
  split
  case isTrue hlt =>
    have hnext : f.sent + (place + (g.oldest - (f.sent + place))) = g.oldest := by omega
    have hend : place + (g.oldest - (f.sent + place)) + f.size = published.length := by
      unfold oldest at *
      omega
    have hset := h.setReader (k := place + (g.oldest - (f.sent + place))) (by omega)
    rw [hnext] at hset
    exact .lagged (Nat.sub_pos_of_lt hlt) hend hset rfl
  case isFalse hge =>
    split
    case h_1 a ha =>
      have hitem := h.getElem?_kept (Nat.not_lt.mp hge)
      rw [ha] at hitem
      have hlt : place < published.length := (List.getElem?_eq_some_iff.1 hitem.symm).1
      exact .item hitem.symm (h.setReader hlt) rfl
    case h_2 hnone =>
      have hend : place = published.length := by
        have hplace := h.place_le
        have hkept := List.getElem?_eq_none_iff.1 hnone
        omega
      split
      case isTrue hopen => exact .empty hend hopen
      case isFalse hclosed => exact .closed hend (by simpa using hclosed)

end Feed

namespace Fanout

/-- What a turn of a listening hub can bring: an item that is sent, an item or a gap that the hub
finds, with its place, or an event that the owner emits. -/
inductive News where
  | send (e : Event)
  | pass (place : Nat) (e : Event)
  | gap (place count : Nat)
  | emit (e : Event)

/-- The account of a hub that listens. -/
structure Ledger where
  /-- The items that were sent. -/
  sent : List Event := []
  /-- The places of the items that were passed on. -/
  passed : List Nat := []
  /-- The places of the items that fell into a gap. -/
  lost : List Nat := []
  /-- The sizes of the gaps. -/
  gaps : List Nat := []
  /-- The items that were passed on. -/
  relayed : List Event := []
  /-- The events that the owner emitted. -/
  emitted : List Event := []
  /-- The events that went to the workers. -/
  handed : List Event := []

namespace Ledger

def enter (l : Ledger) : News → Ledger
  | .send e => { l with sent := l.sent ++ [e] }
  | .pass place e =>
    { l with
      passed := l.passed ++ [place]
      relayed := l.relayed ++ [e]
      handed := l.handed ++ [e] }
  | .gap place count =>
    { l with lost := l.lost ++ List.range' place count, gaps := l.gaps ++ [count] }
  | .emit e => { l with emitted := l.emitted ++ [e], handed := l.handed ++ [e] }

/-- The place of the item that is to be read next. -/
def place (l : Ledger) : Nat := l.passed.length + l.lost.length

lemma place_pass (l : Ledger) (k : Nat) (e : Event) :
    (l.enter (.pass k e)).place = l.place + 1 := by
  simp only [enter, place, List.length_append, List.length_singleton]
  omega

lemma place_gap (l : Ledger) (k count : Nat) :
    (l.enter (.gap k count)).place = l.place + count := by
  simp only [enter, place, List.length_append, List.length_range']
  omega

lemma sublist_of_map_eq {α : Type} {places : List Nat} {items all : List α} {first : Nat}
    (horder : places.Pairwise (· < ·)) (hfirst : ∀ k ∈ places, first ≤ k)
    (heq : items.map some = places.map (all[·]?)) : items.Sublist (all.drop first) := by
  induction places generalizing items first with
  | nil =>
    rw [List.map_nil, List.map_eq_nil_iff] at heq
    rw [heq]
    exact List.nil_sublist _
  | cons k places ih =>
    obtain ⟨a, rest, rfl, ha, hrest⟩ := List.map_eq_cons_iff.1 heq
    obtain ⟨hlt, horder⟩ := List.pairwise_cons.1 horder
    have htail := ih horder hlt hrest
    have hdrop : all.drop k = a :: all.drop (k + 1) := by
      obtain ⟨hk, hget⟩ := List.getElem?_eq_some_iff.1 ha.symm
      rw [List.drop_eq_getElem_cons hk, hget]
    have hhead : (a :: rest).Sublist (all.drop k) := hdrop ▸ htail.cons_cons a
    exact hhead.trans (List.drop_sublist_drop_left all (hfirst k List.mem_cons_self))

/-- All items up to a place are done with, once each: those passed on, in their order, and those
that the feed, which keeps so many items, had overwritten. -/
structure Balanced (size : Nat) (l : Ledger) : Prop where
  place_le : l.place ≤ l.sent.length
  places : (l.passed ++ l.lost).Perm (List.range l.place)
  inOrder : l.passed.Pairwise (· < ·)
  overwritten : ∀ k ∈ l.lost, k + size < l.sent.length
  gaps_sum : l.gaps.sum = l.lost.length
  relayed_eq : l.relayed.map some = l.passed.map (l.sent[·]?)
  handed_eq : l.handed = l.relayed ++ l.emitted

namespace Balanced

variable {size : Nat} {l : Ledger} {e : Event} (h : Balanced size l)
include h

lemma lt_place {k : Nat} (hk : k ∈ l.passed ∨ k ∈ l.lost) : k < l.place :=
  List.mem_range.1 (h.places.mem_iff.1 (List.mem_append.2 hk))

lemma send (e : Event) : Balanced size (l.enter (.send e)) := by
  have hold : ∀ k ∈ l.passed, (l.sent ++ [e])[k]? = l.sent[k]? := fun k hk =>
    List.getElem?_append_left (Nat.lt_of_lt_of_le (h.lt_place (Or.inl hk)) h.place_le)
  refine ⟨?_, h.places, h.inOrder, fun k hk => ?_, h.gaps_sum, ?_, h.handed_eq⟩
  · exact Nat.le_trans h.place_le (by simp [enter])
  · exact Nat.lt_of_lt_of_le (h.overwritten k hk) (by simp [enter])
  · exact h.relayed_eq.trans (List.map_congr_left hold).symm

lemma emit (e : Event) : Balanced size (l.enter (.emit e)) where
  place_le := h.place_le
  places := h.places
  inOrder := h.inOrder
  overwritten := h.overwritten
  gaps_sum := h.gaps_sum
  relayed_eq := h.relayed_eq
  handed_eq := by simp only [enter, h.handed_eq, List.append_assoc]

lemma pass (hnext : l.sent[l.place]? = some e) (hnothing : l.emitted = []) :
    Balanced size (l.enter (.pass l.place e)) where
  place_le := by
    rw [place_pass]
    exact (List.getElem?_eq_some_iff.1 hnext).1
  places := by
    have hswap : ([l.place] ++ l.lost).Perm (l.lost ++ [l.place]) := List.perm_append_comm
    rw [place_pass, List.range_succ]
    simp only [enter, List.append_assoc]
    refine (hswap.append_left _).trans ?_
    rw [← List.append_assoc]
    exact h.places.append_right _
  inOrder := by
    refine List.pairwise_append.2 ⟨h.inOrder, List.pairwise_singleton _ _, fun k hk next hmem => ?_⟩
    rw [List.mem_singleton.1 hmem]
    exact h.lt_place (Or.inl hk)
  overwritten := h.overwritten
  gaps_sum := h.gaps_sum
  relayed_eq := by
    simp only [enter, List.map_append, h.relayed_eq, List.map_cons, List.map_nil, hnext]
  handed_eq := by simp only [enter, h.handed_eq, hnothing, List.append_nil]

lemma gap {count : Nat} (hend : l.place + count + size = l.sent.length) :
    Balanced size (l.enter (.gap l.place count)) := by
  refine ⟨?_, ?_, h.inOrder, fun k hk => ?_, ?_, h.relayed_eq, h.handed_eq⟩
  · rw [place_gap]
    simp only [enter]
    omega
  · have hrange : List.range (l.place + count) =
        List.range l.place ++ List.range' l.place count := by
      rw [List.range_add, List.range'_eq_map_range]
    rw [place_gap, hrange]
    simp only [enter, ← List.append_assoc]
    exact h.places.append_right _
  · rcases List.mem_append.1 hk with hk | hk
    · exact h.overwritten k hk
    · have hlt := (List.mem_range'_1.1 hk).2
      simp only [enter]
      omega
  · simp [enter, h.gaps_sum]

/-- What is passed on is a part of what is sent, in its order. -/
lemma relayed_sublist : l.relayed.Sublist l.sent := by
  simpa using sublist_of_map_eq h.inOrder (fun _ _ => Nat.zero_le _) h.relayed_eq

/-- Every item is yet to be read, was overwritten, or was passed on. -/
lemma place_cases (k : Nat) :
    (l.place ≤ k ∧ k ∉ l.passed ∧ k ∉ l.lost) ∨ (k ∈ l.lost ∧ k ∉ l.passed) ∨
      (k ∉ l.lost ∧ k ∈ l.passed) := by
  have hnodup : (l.passed ++ l.lost).Nodup := h.places.nodup_iff.2 List.nodup_range
  by_cases hk : l.place ≤ k
  · exact Or.inl ⟨hk, fun hpassed => Nat.not_lt.2 hk (h.lt_place (Or.inl hpassed)),
      fun hlost => Nat.not_lt.2 hk (h.lt_place (Or.inr hlost))⟩
  · have hmem := h.places.mem_iff.2 (List.mem_range.2 (Nat.not_le.1 hk))
    have hdisjoint (hpassed : k ∈ l.passed) (hlost : k ∈ l.lost) : False :=
      (List.nodup_append.1 hnodup).2.2 k hpassed k hlost rfl
    rcases List.mem_append.1 hmem with hpassed | hlost
    · exact Or.inr (Or.inr ⟨hdisjoint hpassed, hpassed⟩)
    · exact Or.inr (Or.inl ⟨hlost, fun hpassed => hdisjoint hpassed hlost⟩)

/-- If nothing was overwritten and everything is done with, all was passed on. -/
lemma relayed_eq_sent (hlost : l.lost = []) (hend : l.place = l.sent.length) :
    l.relayed = l.sent := by
  have hlength : l.relayed.length = l.passed.length := by
    simpa using congrArg List.length h.relayed_eq
  refine h.relayed_sublist.eq_of_length ?_
  rw [hlength, ← hend, place, hlost, List.length_nil, Nat.add_zero]

end Balanced

end Ledger

namespace Hub

variable {h : Hub} {f g : Feed Event} {turn : Turn} {l : Ledger}

/-- What a turn brings; places count from the item `first` on. -/
def tidings (first : Nat) (h : Hub) : Turn → Option News
  | .send e => if h.feed.any (·.isOpen) then some (.send e) else none
  | .emit e => (h.handed (.emit e)).map .emit
  | .relay => h.feed.bind fun f => f.readers[0]?.join.bind fun next =>
    match f.read 0 with
    | (.item e, _) => some (.pass (next - first) e)
    | (.lagged count, _) => some (.gap (next - first) count)
    | _ => none
  | _ => none

def ledger (first : Nat) (h : Hub) (turns : List Turn) : Ledger :=
  (h.notes (tidings first) turns).foldl Ledger.enter {}

/-- Of the complaints of a hub, those about gaps. -/
def gaps (h : Hub) : List Nat :=
  h.complaints.filterMap fun
    | .lagged count => some count
    | _ => none

/-- Since it has begun to listen to `f`, the hub has kept this account. -/
structure Keeps (f : Feed Event) (h : Hub) (l : Ledger) : Prop where
  balanced : l.Balanced f.size
  listening : ∀ {g}, h.feed = some g → f.Since g l.sent l.place ∧ l.emitted = []
  returned : h.feed = none → l.place = l.sent.length
  gaps_eq : h.gaps = l.gaps

lemma gaps_emit (h : Hub) (e : Event) : (h.emit e).gaps = h.gaps := by
  rw [gaps, emit, List.filterMap_append]
  refine (congrArg (h.gaps ++ ·) ?_).trans (List.append_nil _)
  rw [List.filterMap_filterMap, List.filterMap_eq_nil_iff]
  rintro ⟨w, answer⟩ -
  cases answer <;> rfl

lemma gaps_record (h : Hub) (name : String) (reaction : Reaction) :
    (h.record name reaction).gaps = h.gaps := by
  cases reaction <;> simp [gaps, record]

/-- An account stays right as long as the feed and the gaps stay the same. -/
lemma Keeps.of_same {after : Hub} (hl : h.Keeps f l) (hfeed : after.feed = h.feed)
    (hgaps : after.gaps = h.gaps) : after.Keeps f l where
  balanced := hl.balanced
  listening := by rw [hfeed]; exact hl.listening
  returned := by rw [hfeed]; exact hl.returned
  gaps_eq := hgaps.trans hl.gaps_eq

/-- Who can send makes no difference to an account. -/
lemma Keeps.setSenders (hl : h.Keeps f l) (isPossible : Bool) (change : Feed Event → Feed Event)
    (hchange : ∀ g, ∃ senders, change g = { g with senders }) :
    ((if isPossible then some { h with feed := h.feed.map change } else none).getD h).Keeps f l := by
  cases isPossible with
  | false => exact hl
  | true =>
    refine ⟨hl.balanced, fun {g'} hafter => ?_, fun hnone => ?_, hl.gaps_eq⟩
    · obtain ⟨g, hfeed, rfl⟩ := Option.map_eq_some_iff.1 hafter
      obtain ⟨senders, hsenders⟩ := hchange g
      obtain ⟨hsince, hnothing⟩ := hl.listening hfeed
      exact ⟨hsenders ▸ hsince.setSenders senders, hnothing⟩
    · exact hl.returned (Option.map_eq_none_iff.1 hnone)

/-- What a look of the listener brings, what it hands out, and the hub afterwards. -/
inductive Relays (f : Feed Event) (h : Hub) (g : Feed Event) (l : Ledger) :
    Option News → Option Event → Option Hub → Prop where
  | item {e : Event} {after : Feed Event} (he : l.sent[l.place]? = some e)
      (hsince : f.Since after l.sent (l.place + 1)) (hsenders : after.senders = g.senders) :
      h.Relays f g l (some (.pass l.place e)) (some e) (some ({ h with feed := some after }.emit e))
  | lagged {missed : Nat} {after : Feed Event} (hmissed : 0 < missed)
      (hend : l.place + missed + f.size = l.sent.length)
      (hsince : f.Since after l.sent (l.place + missed)) (hsenders : after.senders = g.senders) :
      h.Relays f g l (some (.gap l.place missed)) none
        (some { h with feed := some after, complaints := h.complaints ++ [.lagged missed] })
  | waits (hend : l.place = l.sent.length) (hopen : g.isOpen = true) :
      h.Relays f g l none none none
  | ends (hend : l.place = l.sent.length) (hclosed : g.isOpen = false) :
      h.Relays f g l none none (some { h with feed := none })

theorem Keeps.relays (hl : h.Keeps f l) (hfeed : h.feed = some g) :
    h.Relays f g l (h.tidings f.sent .relay) (h.handed .relay) (h.step .relay) := by
  obtain ⟨hsince, -⟩ := hl.listening hfeed
  have hfinds := hsince.finds
  simp only [Hub.step, Hub.relay, tidings, handed, hfeed, Option.bind_some, hsince.reader,
    Option.join_some, Nat.add_sub_cancel_left]
  generalize g.read 0 = found at hfinds ⊢
  cases hfinds with
  | item he hafter hsenders => exact .item he hafter hsenders
  | lagged hmissed hend hafter hsenders => exact .lagged hmissed hend hafter hsenders
  | empty hend hopen => exact .waits hend hopen
  | closed hend hclosed => exact .ends hend hclosed

lemma Relays.keeps {news : Option News} {answer : Option Event} {next : Option Hub}
    (hrelays : h.Relays f g l news answer next) (hl : h.Keeps f l) (hfeed : h.feed = some g) :
    (next.getD h).Keeps f (news.elim l l.enter) := by
  have hnothing := (hl.listening hfeed).2
  cases hrelays with
  | item he hsince =>
    refine ⟨hl.balanced.pass he hnothing, fun hafter => ?_, fun hnone => ?_, ?_⟩
    · cases hafter
      exact ⟨(l.place_pass _ _).symm ▸ hsince, hnothing⟩
    · cases hnone
    · exact (gaps_emit _ _).trans hl.gaps_eq
  | lagged _ hend hsince =>
    refine ⟨hl.balanced.gap hend, fun hafter => ?_, fun hnone => ?_, ?_⟩
    · cases hafter
      exact ⟨(l.place_gap _ _).symm ▸ hsince, hnothing⟩
    · cases hnone
    · simp [gaps, Ledger.enter, ← hl.gaps_eq]
  | waits => exact hl
  | ends hend =>
    refine ⟨hl.balanced, fun hafter => ?_, fun _ => hend, hl.gaps_eq⟩
    cases hafter

lemma Keeps.relay (hl : h.Keeps f l) :
    ((h.step .relay).getD h).Keeps f ((h.tidings f.sent .relay).elim l l.enter) := by
  cases hfeed : h.feed with
  | none => simpa [Hub.step, Hub.relay, tidings, hfeed] using hl
  | some g => exact (hl.relays hfeed).keeps hl hfeed

theorem Keeps.step (hl : h.Keeps f l) (turn : Turn) :
    ((h.step turn).getD h).Keeps f ((h.tidings f.sent turn).elim l l.enter) := by
  cases turn with
  | send e =>
    simp only [tidings, Hub.step]
    cases hfeed : h.feed with
    | none => exact hl
    | some g =>
      obtain ⟨hsince, hnothing⟩ := hl.listening hfeed
      cases hopen : g.isOpen with
      | false =>
        simp only [Option.any_some, hopen]
        exact hl
      | true =>
        simp only [Option.any_some, hopen, if_true, Option.elim]
        refine ⟨hl.balanced.send e, fun hafter => ?_, fun hnone => ?_, hl.gaps_eq⟩
        · have hg := Option.some_inj.1 ((congrArg (Option.map _) hfeed).symm.trans hafter)
          exact ⟨hg ▸ hsince.send e, hnothing⟩
        · exact absurd ((congrArg (Option.map _) hfeed).symm.trans hnone) (by simp)
  | emit e =>
    simp only [tidings, Hub.step, handed]
    cases hfeed : h.feed with
    | some g => simpa using hl
    | none =>
      cases hshut : h.isShut with
      | true => exact hl
      | false =>
        refine ⟨hl.balanced.emit e, fun hafter => ?_, fun _ => hl.returned hfeed, ?_⟩
        · exact absurd (hfeed.symm.trans hafter) (by simp)
        · exact (gaps_emit _ _).trans hl.gaps_eq
  | join s => exact hl.setSenders _ (·.addSender s) fun g => ⟨_, rfl⟩
  | leave s => exact hl.setSenders _ (·.dropSender s) fun g => ⟨_, rfl⟩
  | relay => exact hl.relay
  | take j =>
    simp only [tidings, Hub.step, Option.elim]
    cases h.workers[j]?.bind Worker.take <;> exact hl.of_same rfl rfl
  | finish j =>
    simp only [tidings, Hub.step, Option.elim]
    cases h.workers[j]? with
    | none => exact hl
    | some w =>
      cases hfinish : w.finish with
      | none =>
        simp only [hfinish]
        exact hl
      | some answer =>
        exact hl.of_same (by simp [hfinish, feed_record, update])
          (by simp [hfinish, gaps_record]; rfl)
  | shut =>
    simp only [tidings, Hub.step, Option.elim]
    split <;> exact hl.of_same rfl rfl
  | retire j =>
    simp only [tidings, Hub.step, Option.elim]
    cases h.workers[j]? with
    | none => exact hl
    | some w =>
      by_cases hgo : h.isShut = true ∧ w.isIdle = true
      · exact hl.of_same (by simp [hgo, update]) (by simp [hgo, update, gaps])
      · simpa [hgo] using hl

/-- The events that go to the workers are those passed on and those that the owner emits. -/
lemma Keeps.handed_enter (hl : h.Keeps f l) (turn : Turn) :
    ((h.tidings f.sent turn).elim l l.enter).handed = l.handed ++ (h.handed turn).toList := by
  have hnothing : l.handed ++ [] = l.handed := List.append_nil _
  cases turn with
  | emit e =>
    simp only [tidings]
    cases h.handed (.emit e) with
    | none => exact hnothing.symm
    | some e => rfl
  | relay =>
    cases hfeed : h.feed with
    | none => simp [tidings, handed, hfeed]
    | some g =>
      have hrelays := hl.relays hfeed
      generalize h.tidings f.sent .relay = news, h.handed .relay = answer, h.step .relay = next
        at hrelays ⊢
      cases hrelays with
      | item => rfl
      | lagged | waits | ends => exact hnothing.symm
  | send e =>
    simp only [tidings]
    split <;> exact hnothing.symm
  | join | leave | take | finish | shut | retire => exact hnothing.symm

theorem Keeps.follow (hl : h.Keeps f l) (turns : List Turn) :
    (h.follow turns).Keeps f ((h.notes (tidings f.sent) turns).foldl Ledger.enter l) ∧
      ((h.notes (tidings f.sent) turns).foldl Ledger.enter l).handed =
        l.handed ++ h.emitted turns := by
  induction turns generalizing h l with
  | nil => exact ⟨hl, (List.append_nil _).symm⟩
  | cons turn turns ih =>
    have hhanded := hl.handed_enter turn
    have hstep : ((h.tidings f.sent turn).toList.foldl Ledger.enter l) =
        (h.tidings f.sent turn).elim l l.enter := by
      cases h.tidings f.sent turn <;> rfl
    obtain ⟨hkeeps, hrest⟩ := ih (hl.step turn)
    rw [notes, List.foldl_append, hstep, hrest, hhanded, emitted_cons, List.append_assoc]
    exact ⟨hkeeps, rfl⟩

/-- A hub whose owner has just lent it to a feed. -/
lemma keeps_listen (subscribers : List Subscriber) (hf : f.readers[0]? = some (some f.sent)) :
    ({ ofSubscribers subscribers with feed := some f } : Hub).Keeps f {} where
  balanced :=
    { place_le := Nat.le_refl _
      places := List.Perm.refl _
      inOrder := List.Pairwise.nil
      overwritten := fun _ hk => absurd hk List.not_mem_nil
      gaps_sum := rfl
      relayed_eq := rfl
      handed_eq := rfl }
  listening := fun hg => ⟨Option.some_inj.1 hg ▸ .refl hf, rfl⟩
  returned := fun hnone => by cases hnone
  gaps_eq := rfl

lemma sound_listen (subscribers : List Subscriber) (f : Feed Event) :
    ({ ofSubscribers subscribers with feed := some f } : Hub).Sound where
  lent := fun hshut => by cases hshut
  room := (sound_ofSubscribers subscribers).room
  staffed := (sound_ofSubscribers subscribers).staffed

/-- Only the listener gives a hub back. -/
lemma eq_relay_of_returned (hfeed : h.feed = some g) (hback : ((h.step turn).getD h).feed = none) :
    turn = .relay := by
  cases turn with
  | relay => rfl
  | emit e => simp [step, hfeed] at hback
  | send | join | leave =>
    simp only [step] at hback
    split at hback <;> simp [hfeed, send] at hback
  | take j =>
    simp only [step] at hback
    cases htake : h.workers[j]?.bind Worker.take <;> simp [htake, hfeed, update] at hback
  | finish j =>
    simp only [step] at hback
    cases hw : h.workers[j]? with
    | none => simp [hw, hfeed] at hback
    | some w =>
      cases hfinish : w.finish <;> simp [hw, hfinish, feed_record, hfeed, update] at hback
  | shut => simp [step, hfeed] at hback
  | retire j =>
    simp only [step] at hback
    cases hw : h.workers[j]? with
    | none => simp [hw, hfeed] at hback
    | some w =>
      by_cases hgo : h.isShut = true ∧ w.isIdle = true <;> simp [hw, hgo, hfeed, update] at hback

/-- The listener gives the hub back when nobody can send and nothing is left to read. -/
lemma Keeps.closed_of_returned (hl : h.Keeps f l) (hfeed : h.feed = some g)
    (hback : ((h.step turn).getD h).feed = none) :
    g.isOpen = false ∧ l.place = l.sent.length := by
  obtain rfl := eq_relay_of_returned hfeed hback
  have hrelays := hl.relays hfeed
  generalize h.tidings f.sent .relay = news, h.handed .relay = answer, h.step .relay = next
    at hrelays hback
  cases hrelays with
  | item | lagged => cases hback
  | waits => cases hfeed.symm.trans hback
  | ends hend hclosed => exact ⟨hclosed, hend⟩

/-- All senders of the feed can leave. -/
lemma exists_unsent (hfeed : h.feed = some g) :
    ∃ turns g', (h.follow turns).feed = some g' ∧ g'.isOpen = false := by
  induction hn : g.senders.count true using Nat.strongRecOn generalizing h g with
  | ind n ih =>
    cases hopen : g.isOpen with
    | false => exact ⟨[], g, hfeed, hopen⟩
    | true =>
      obtain ⟨s, hs⟩ : ∃ s, g.senders[s]? = some true := by
        have hmem : true ∈ g.senders := by simpa [Feed.isOpen] using hopen
        exact List.getElem?_of_mem hmem
      have hcan : g.canSend s = true := by simp [Feed.canSend, hs]
      have hstep : h.step (.leave s) = some { h with feed := some (g.dropSender s) } := by
        simp [step, hfeed, hcan]
      have hless : (g.dropSender s).senders.count true < n := by
        obtain ⟨hlt, hget⟩ := List.getElem?_eq_some_iff.1 hs
        have hpos := List.count_pos_iff.2 (List.mem_of_getElem? hs)
        rw [Feed.dropSender, List.count_set hlt, hget]
        simp only [beq_self_eq_true, if_true, Bool.false_beq, Bool.not_true, Bool.false_eq_true,
          if_false]
        omega
      obtain ⟨turns, g', hg', hclosed⟩ := ih _ hless (h := { h with feed := some (g.dropSender s) })
        rfl rfl
      exact ⟨.leave s :: turns, g', by rwa [follow_cons, hstep], hclosed⟩

/-- When all senders have left, the listener gets to the end of the feed. -/
lemma Keeps.exists_returned (hl : h.Keeps f l) (hfeed : h.feed = some g)
    (hclosed : g.isOpen = false) : ∃ turns, (h.follow turns).feed = none := by
  induction hn : l.sent.length - l.place using Nat.strongRecOn generalizing h g l with
  | ind n ih =>
    have hrelays := hl.relays hfeed
    have hkeeps := hl.relay
    have hfirst {after : Hub} (hnext : (h.step .relay).getD h = after)
        (hrest : ∃ turns, (after.follow turns).feed = none) :
        ∃ turns, (h.follow turns).feed = none := by
      obtain ⟨turns, hturns⟩ := hrest
      exact ⟨.relay :: turns, by rwa [follow_cons, hnext]⟩
    generalize h.tidings f.sent .relay = news, h.handed .relay = answer, h.step .relay = next
      at hrelays hkeeps hfirst
    cases hrelays with
    | @item e after he hsince hsenders =>
      have hplace := l.place_pass l.place e
      have hle : l.place + 1 ≤ l.sent.length := hsince.place_le
      have hless : l.sent.length - (l.enter (.pass l.place e)).place < n := by omega
      have hunsent : after.isOpen = false := by
        rw [Feed.isOpen, hsenders]
        exact hclosed
      exact hfirst rfl (ih _ hless hkeeps rfl hunsent rfl)
    | @lagged missed after hmissed hend hsince hsenders =>
      have hplace := l.place_gap l.place missed
      have hle : l.place + missed ≤ l.sent.length := hsince.place_le
      have hless : l.sent.length - (l.enter (.gap l.place missed)).place < n := by omega
      have hunsent : after.isOpen = false := by
        rw [Feed.isOpen, hsenders]
        exact hclosed
      exact hfirst rfl (ih _ hless hkeeps rfl hunsent rfl)
    | waits _ hopen =>
      rw [hclosed] at hopen
      cases hopen
    | ends => exact hfirst rfl ⟨[], rfl⟩

/-- However far a listening hub is, it can come to its end. -/
theorem Keeps.exists_isOver (hl : h.Keeps f l) : ∃ turns, (h.follow turns).isOver = true := by
  obtain ⟨turns, hback⟩ : ∃ turns, (h.follow turns).feed = none := by
    cases hfeed : h.feed with
    | none => exact ⟨[], hfeed⟩
    | some g =>
      obtain ⟨leaves, g', hg', hclosed⟩ := exists_unsent hfeed
      obtain ⟨looks, hlooks⟩ := (hl.follow leaves).1.exists_returned hg' hclosed
      exact ⟨leaves ++ looks, by rwa [Hub.follow_append]⟩
  obtain ⟨rest, hover⟩ := exists_isOver_of_shut hback
  exact ⟨turns ++ .shut :: rest, by rwa [Hub.follow_append]⟩

/-- However a feed is read and whatever the workers do, each subscriber gets a part of what is sent,
in the order of sending and each item once. What it does not get the hub has yet to read, or the
feed had overwritten it, as the complaints about gaps say, or it met a full queue. The hub comes
back only when nobody can send any more and everything that was kept has been passed on. So if
nothing was overwritten or refused, each subscriber has handled all that was sent when the hub, once
back, is shut and everybody has left. -/
theorem listening_hub_is_accounted (subscribers : List Subscriber) (f : Feed Event)
    (hf : f.readers[0]? = some (some f.sent)) (turns : List Turn) {i : Nat} {s : Subscriber}
    (hs : subscribers[i]? = some s) :
    let start : Hub := { ofSubscribers subscribers with feed := some f }
    let h := start.follow turns
    let l := start.ledger f.sent turns
    let trials := start.trials i turns
    ∃ w, h.workers[i]? = some w ∧ w.subscriber = s ∧
      (w.handled ++ w.current.toList ++ w.queue).Sublist (l.sent ++ l.emitted) ∧
      w.handled ++ w.current.toList ++ w.queue = Trial.kept trials ∧
      l.passed.Pairwise (· < ·) ∧
      (∀ (k : Nat) (e : Event), l.sent[k]? = some e →
        (l.place ≤ k ∧ k ∉ l.passed ∧ k ∉ l.lost) ∨
        (k ∈ l.lost ∧ k ∉ l.passed ∧ k + f.size < l.sent.length) ∨
        (k ∉ l.lost ∧ ∃ (n : Nat) (t : Trial), l.passed[n]? = some k ∧ trials[n]? = some t ∧ t.event = e ∧
          (t.isKept = false ↔ t.waiting = max s.capacity 1))) ∧
      h.gaps.sum = l.lost.length ∧
      (∀ turn g, h.feed = some g → ((h.step turn).getD h).feed = none →
        g.isOpen = false ∧ l.place = l.sent.length) ∧
      (h.feed = none → l.place = l.sent.length) ∧
      (l.lost = [] → (∀ t ∈ trials, t.isKept = true) → h.isOver = true →
        w.handled = l.sent ++ l.emitted) ∧
      ∃ rest, (h.follow rest).isOver = true := by
  intro start h l trials
  have hsound : start.Sound := sound_listen subscribers f
  have hhere : start.workers[i]? = some { subscriber := s } := (fresh_ofSubscribers hs).here
  obtain ⟨hkeeps, hhanded⟩ := (keeps_listen subscribers hf).follow turns
  have hbalanced : l.Balanced f.size := hkeeps.balanced
  obtain ⟨w, hw, hsubscriber, haccepted⟩ := accepted_follow turns hhere
  have hkept : w.accepted = Trial.kept trials := haccepted
  have hmet : trials.map (·.event) = l.relayed ++ l.emitted := by
    rw [← hbalanced.handed_eq]
    exact (map_event_trials turns hhere).trans hhanded.symm
  have hspec := hsound.trials_spec turns hhere
  refine ⟨w, hw, hsubscriber, ?_, hkept, hbalanced.inOrder, fun k e hk => ?_, ?_,
    fun turn g => hkeeps.closed_of_returned, hkeeps.returned, fun hlost hall hover => ?_,
    hkeeps.exists_isOver⟩
  · have hsublist := Trial.kept_sublist trials
    rw [hmet] at hsublist
    have hall := hsublist.trans (hbalanced.relayed_sublist.append_right l.emitted)
    rwa [← hkept] at hall
  · rcases hbalanced.place_cases k with hyet | ⟨hlost, hpassed⟩ | ⟨hlost, hpassed⟩
    · exact Or.inl hyet
    · exact Or.inr (Or.inl ⟨hlost, hpassed, hbalanced.overwritten k hlost⟩)
    · obtain ⟨n, hn⟩ := List.getElem?_of_mem hpassed
      have hitem : l.relayed[n]? = some e := by
        have hat := congrArg (·[n]?) hbalanced.relayed_eq
        simpa [hn, hk] using hat
      have hevent : (trials.map (·.event))[n]? = some e := by
        rw [hmet, List.getElem?_append_left (List.getElem?_eq_some_iff.1 hitem).1, hitem]
      rw [List.getElem?_map, Option.map_eq_some_iff] at hevent
      obtain ⟨t, ht, hte⟩ := hevent
      exact Or.inr (Or.inr ⟨hlost, n, t, hn, ht, hte, (hspec t (List.mem_of_getElem? ht)).2⟩)
  · rw [hkeeps.gaps_eq]
    exact hbalanced.gaps_sum
  · have hback : h.feed = none := (hsound.follow turns).lent (Bool.and_eq_true_iff.1 hover).1
    have hrelayed : l.relayed = l.sent :=
      hbalanced.relayed_eq_sent hlost (hkeeps.returned hback)
    obtain ⟨-, -, hhandled⟩ := (hsound.follow turns).handled_of_isOver hover hw
    rw [hhandled, hkept, Trial.kept, List.filter_eq_self.2 hall, hmet, hrelayed]

/-- A feed with room for two items is sent three before the hub looks: the first is lost, and a
subscriber with room for one misses the third as well. -/
theorem listening_hub_with_a_gap :
    let f : Feed Event := (Feed.create 2).subscribe
    let tight : Subscriber := ⟨"tight", 1, fun _ _ => .quiet⟩
    let event (n : Nat) : Event := { kind := .attemptStarting, seq := n }
    let start : Hub := { ofSubscribers [tight, .logWriter] with feed := some f }
    let turns : List Turn := [.send (event 1), .send (event 2), .join 0, .send (event 3), .leave 0,
      .leave 1, .relay, .relay, .relay, .take 0, .relay, .finish 0, .take 1, .finish 1, .take 1,
      .finish 1, .shut, .retire 0, .retire 1]
    let l := start.ledger f.sent turns
    f.readers[0]? = some (some f.sent) ∧ [tight, .logWriter][1]? = some .logWriter ∧
      (start.follow turns).isOver = true ∧ l.sent = [event 1, event 2, event 3] ∧ l.lost = [0] ∧
      (start.follow turns).gaps.sum = 1 ∧
      (start.trials 0 turns).map (·.isKept) = [true, false] ∧
      ∃ w, (start.follow turns).workers[1]? = some w ∧ w.handled.Sublist l.sent := by
  intro f tight event start turns l
  have hover : (start.follow turns).isOver = true := by decide +kernel
  have hsent : l.sent = [event 1, event 2, event 3] := by decide +kernel
  have hemitted : l.emitted = [] := by decide +kernel
  have hlost : l.lost = [0] := by decide +kernel
  have htrials : (start.trials 0 turns).map (·.isKept) = [true, false] := by decide +kernel
  obtain ⟨w, hw, -, hpart, -, -, -, hgaps, -⟩ :=
    listening_hub_is_accounted [tight, .logWriter] f rfl turns (i := 1) (s := .logWriter) rfl
  have hhandled : w.handled.Sublist l.sent := by
    rw [hemitted, List.append_nil, List.append_assoc] at hpart
    exact (List.sublist_append_left _ _).trans hpart
  exact ⟨rfl, rfl, hover, hsent, hlost, hgaps.trans (congrArg List.length hlost), htrials, w, hw,
    hhandled⟩

end Hub

end Fanout

end Redial
