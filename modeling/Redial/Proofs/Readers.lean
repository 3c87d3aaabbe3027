import Redial.Proofs.RelayAccounts

/-!
# What one reader of a feed receives

Readers of a feed come and go. For any one of them the feed is as good as one that it has to itself:
the others make no difference, and while it is there nothing that is sent is lost for want of a
reader. So it receives the items in their order, and where it was too slow it is told how many it
has missed.
-/

namespace Redial

namespace Reading

variable {α : Type} {place : Nat} {readings : List (Reading α)}

def item? : Reading α → Option α
  | item a => some a
  | _ => none

/-- How many items a reading tells of. -/
def width : Reading α → Nat
  | item _ => 1
  | lagged missed => missed
  | empty | closed => 0

/-- How many items a reader has received or was told that it has missed. -/
def covered (readings : List (Reading α)) : Nat := (readings.map width).sum

/-- The items that a reader has received, each with its place: the first item that it could have
received has the place at which one begins to count, and items that were missed count as well. -/
def placed (place : Nat) : List (Reading α) → List (Nat × α)
  | [] => []
  | reading :: rest => (reading.item?.map (place, ·)).toList ++ placed (place + reading.width) rest

lemma covered_append (first rest : List (Reading α)) :
    covered (first ++ rest) = covered first + covered rest := by
  unfold covered
  rw [List.map_append, List.sum_append]

lemma covered_singleton (reading : Reading α) : covered [reading] = reading.width := Nat.add_zero _

lemma placed_append (first rest : List (Reading α)) (place : Nat) :
    placed place (first ++ rest) = placed place first ++ placed (place + covered first) rest := by
  induction first generalizing place with
  | nil => rfl
  | cons reading first ih =>
    have hplace : place + reading.width + covered first = place + covered (reading :: first) :=
      Nat.add_assoc _ _ _
    rw [List.cons_append, placed, ih, hplace, placed, List.append_assoc]

lemma placed_singleton (place : Nat) (reading : Reading α) :
    placed place [reading] = (reading.item?.map (place, ·)).toList := List.append_nil _

lemma le_of_mem_placed {p : Nat × α} (h : p ∈ placed place readings) : place ≤ p.1 := by
  induction readings generalizing place with
  | nil => cases h
  | cons reading rest ih =>
    rcases List.mem_append.mp h with hfirst | hrest
    · obtain ⟨a, -, rfl⟩ := Option.map_eq_some_iff.mp (Option.mem_toList.mp hfirst)
      exact Nat.le_refl _
    · exact Nat.le_trans (Nat.le_add_right _ _) (ih hrest)

lemma pairwise_placed (place : Nat) (readings : List (Reading α)) :
    ((placed place readings).map Prod.fst).Pairwise (· < ·) := by
  induction readings generalizing place with
  | nil => exact .nil
  | cons reading rest ih =>
    rw [placed]
    cases reading with
    | item a =>
      refine List.pairwise_cons.mpr ⟨fun k hk => ?_, ih _⟩
      obtain ⟨p, hp, rfl⟩ := List.mem_map.mp hk
      exact le_of_mem_placed hp
    | empty | closed | lagged => exact ih _

end Reading

namespace Feed

variable {α : Type} {f g : Feed α} {r : Nat} {due : List α} {heard : List (Reading α)}

/-- The feed with one of its readers alone. -/
def only (f : Feed α) (r : Nat) : Feed α := { f with readers := [f.readers[r]?.join] }

section Only

variable {other : Nat}

lemma only_subscribe (hr : r < f.readers.length) : f.subscribe.only r = f.only r := by
  unfold only subscribe
  rw [List.getElem?_append_left hr]

lemma only_set (hother : other ≠ r) (entry : Option Nat) :
    ({ f with readers := f.readers.set other entry } : Feed α).only r = f.only r := by
  unfold only
  rw [List.getElem?_set_ne hother]

/-- Reading does nothing but bring the reader to another place. -/
lemma read_cases (f : Feed α) (other : Nat) : (f.read other).2 = f ∨
    ∃ next, (f.read other).2 = { f with readers := f.readers.set other (some next) } := by
  unfold read
  split
  · exact Or.inl rfl
  · split
    · exact Or.inr ⟨_, rfl⟩
    · split
      · exact Or.inr ⟨_, rfl⟩
      · exact Or.inl rfl

/-- While the reader is there, what is sent is kept. -/
lemma only_send {position : Nat} (hr : f.readers[r]? = some (some position)) (a : α) :
    (f.send a).only r = (f.only r).send a := by
  have hhere : (f.only r).readers[0]? = some (some position) := by
    unfold only
    rw [hr]
    rfl
  have hcount : f.readerCount ≠ 0 :=
    Nat.ne_of_gt (List.length_pos_of_mem
      (List.mem_filter.mpr ⟨List.mem_of_getElem? hr, rfl⟩))
  unfold send
  rw [if_neg hcount, if_neg (readerCount_ne_zero hhere)]
  rfl

/-- A reader that is there finds what it would find if it had the feed to itself. -/
lemma read_only {position : Nat} (hr : f.readers[r]? = some (some position)) :
    (f.only r).read 0 = ((f.read r).1, (f.read r).2.only r) := by
  have hlt : r < f.readers.length := (List.getElem?_eq_some_iff.mp hr).1
  have hset (next : Nat) :
      ({ f with readers := f.readers.set r (some next) } : Feed α).only r =
        { f with readers := [some next] } := by
    unfold only
    rw [List.getElem?_set_self hlt]
    rfl
  have honly : f.only r = { f with readers := [some position] } := by
    unfold only
    rw [hr]
    rfl
  have holdest : oldest { f with readers := [some position] } = f.oldest := rfl
  unfold read
  rw [honly, hr]
  dsimp only [Option.join_some, List.getElem?_cons_zero]
  rw [holdest]
  by_cases hlate : position < f.oldest
  · rw [if_pos hlate, if_pos hlate]
    exact congrArg (Prod.mk _) (hset _).symm
  · rw [if_neg hlate, if_neg hlate]
    cases f.kept[position - f.oldest]? with
    | some a => exact congrArg (Prod.mk _) (hset _).symm
    | none => exact congrArg (Prod.mk _) honly.symm

/-- A reader for whom the feed is kept is there. -/
lemma Since.reader_of_only {place : Nat} (h : f.Since (g.only r) due place) :
    g.readers[r]? = some (some (f.sent + place)) := by
  have hreader : g.readers[r]?.join = some (f.sent + place) := Option.some_inj.mp h.reader
  exact Option.join_eq_some_iff.mp hreader

end Only

/-- If the first reader finds an item, it is the next one, and then the reader is past it. -/
lemma Finds.hears {place : Nat} {found : Reading α × Feed α} (h : f.Finds g due place found)
    (hsince : f.Since g due place) : (∀ a, found.1.item? = some a → due[place]? = some a) ∧
      f.Since found.2 due (place + found.1.width) := by
  cases h with
  | item ha h =>
    refine ⟨fun a hitem => ?_, h⟩
    cases hitem
    exact ha
  | lagged _ _ h => exact ⟨nofun, h⟩
  | empty | closed => exact ⟨nofun, hsince⟩

/-- Reader `r` came when the feed was like `f`. Since then `due` was sent to the feed, and the
reader has received its part of it: each item in its place. Unless the reader has left, the feed has
taken in what was sent and keeps the end of it. -/
structure Serves (f : Feed α) (r : Nat) (due : List α) (heard : List (Reading α)) (g : Feed α) :
    Prop where
  placed : ∀ p ∈ Reading.placed 0 heard, due[p.1]? = some p.2
  stays : g.readers[r]? = some none ∨ f.Since (g.only r) due (Reading.covered heard)

namespace Serves

lemma placed_hear {reading : Reading α}
    (hplaced : ∀ p ∈ Reading.placed 0 heard, due[p.1]? = some p.2)
    (hitem : ∀ a, reading.item? = some a → due[Reading.covered heard]? = some a) :
    ∀ p ∈ Reading.placed 0 (heard ++ [reading]), due[p.1]? = some p.2 := by
  intro p hp
  rw [Reading.placed_append, Nat.zero_add, Reading.placed_singleton] at hp
  rcases List.mem_append.mp hp with hp | hp
  · exact hplaced p hp
  · obtain ⟨a, ha, rfl⟩ := Option.map_eq_some_iff.mp (Option.mem_toList.mp hp)
    exact hitem a ha

lemma subscribe_self (f : Feed α) : f.Serves f.readers.length [] [] f.subscribe where
  placed := nofun
  stays := Or.inr
    { size := rfl
      sent := rfl
      kept := by
        rw [List.append_nil]
        exact List.suffix_rfl
      reader := by
        unfold only subscribe
        rw [List.getElem?_append_right (Nat.le_refl _), Nat.sub_self]
        rfl
      place_le := Nat.le_refl _ }

variable (h : f.Serves r due heard g)

include h

lemma lt_readers : r < g.readers.length := by
  rcases h.stays with hleft | hsince
  · exact (List.getElem?_eq_some_iff.mp hleft).1
  · exact (List.getElem?_eq_some_iff.mp hsince.reader_of_only).1

lemma send (a : α) : f.Serves r (due ++ [a]) heard (g.send a) where
  placed p hp := by
    have hat := h.placed p hp
    rw [List.getElem?_append_left (List.getElem?_eq_some_iff.mp hat).1, hat]
  stays := by
    rcases h.stays with hleft | hsince
    · left
      unfold Feed.send
      split
      · exact hleft
      · exact hleft
    · right
      rw [only_send hsince.reader_of_only]
      exact hsince.send a

lemma sendAll (items : List α) : f.Serves r (due ++ items) heard (items.foldl Feed.send g) := by
  induction items generalizing due g with
  | nil => rwa [List.append_nil]
  | cons a items ih =>
    have hrest := ih (h.send a)
    rwa [List.append_assoc] at hrest

lemma subscribe : f.Serves r due heard g.subscribe where
  placed := h.placed
  stays := by
    rw [only_subscribe h.lt_readers]
    refine h.stays.imp_left fun hleft => ?_
    exact (List.getElem?_append_left h.lt_readers).trans hleft

/-- What another reader does makes no difference. -/
lemma set_other {other : Nat} (hother : other ≠ r) (entry : Option Nat) :
    f.Serves r due heard { g with readers := g.readers.set other entry } where
  placed := h.placed
  stays := by
    rw [only_set hother]
    refine h.stays.imp_left fun hleft => ?_
    exact (List.getElem?_set_ne hother).trans hleft

lemma unsubscribe (other : Nat) : f.Serves r due heard (g.unsubscribe other) := by
  by_cases hother : other = r
  · refine ⟨h.placed, Or.inl ?_⟩
    rw [hother]
    exact List.getElem?_set_self h.lt_readers
  · exact h.set_other hother none

lemma read_other {other : Nat} (hother : other ≠ r) : f.Serves r due heard (g.read other).2 := by
  rcases g.read_cases other with hsame | ⟨next, hset⟩
  · rwa [hsame]
  · rw [hset]
    exact h.set_other hother (some next)

lemma read : f.Serves r due (heard ++ [(g.read r).1]) (g.read r).2 := by
  rcases h.stays with hleft | hsince
  · have hread : g.read r = (.closed, g) := by
      unfold Feed.read
      rw [hleft]
      rfl
    rw [hread]
    exact ⟨placed_hear h.placed nofun, Or.inl hleft⟩
  · obtain ⟨hitem, hafter⟩ := hsince.finds.hears hsince
    rw [read_only hsince.reader_of_only] at hitem hafter
    refine ⟨placed_hear h.placed hitem, Or.inr ?_⟩
    rwa [Reading.covered_append, Reading.covered_singleton]

/-- The reader receives a part of what was sent, in the order of sending. -/
lemma sublist : ((Reading.placed 0 heard).map Prod.snd).Sublist due := by
  show List.Sublist _ (due.drop 0)
  refine Fanout.Ledger.sublist_of_map_eq (Reading.pairwise_placed 0 heard)
    (fun _ _ => Nat.zero_le _) ?_
  rw [List.map_map, List.map_map]
  exact List.map_congr_left fun p hp => (h.placed p hp).symm

end Serves

end Feed

end Redial
