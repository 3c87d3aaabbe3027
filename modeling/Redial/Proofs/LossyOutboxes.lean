import Mathlib.Data.List.Induction
import Mathlib.Data.List.Nodup
import Mathlib.Data.List.Perm.Basic
import Redial.Proofs.OutboxAccounts

/-!
# Outboxes that give up values

Two rules make room for a new value by giving up one that the outbox holds: the oldest one or the
newest one. To tell equal values apart, each value carries the number of the request that brought
it. A number is lost if its value was accepted and is neither taken nor in the outbox any more.
-/

namespace Redial.Delivery

namespace Account

variable {α : Type} {a b : Account α} {request : Request α} {value : α}

/-- After the value, as many others have been accepted as the outbox has room for. -/
def Outlived (a : Account α) (value : α) : Prop :=
  ∃ before later, a.accepted = before ++ value :: later ∧ a.box.capacity ≤ later.length

/-- The outbox holds the latest values, and all that it gave up has been outlived. -/
structure Recent (a : Account α) : Prop where
  suffix : a.box.queue <:+ a.accepted
  outlived : ∀ value ∈ a.accepted, value ∉ a.kept → a.Outlived value

lemma recent_create (capacity : Nat) (rule : Overflow) :
    (create capacity rule : Account α).Recent :=
  ⟨List.suffix_refl _, by simp [create]⟩

lemma Outlived.accept {newest : α} (h : a.Outlived value)
    (hcapacity : b.box.capacity = a.box.capacity)
    (haccepted : b.accepted = a.accepted ++ [newest]) : b.Outlived value := by
  obtain ⟨before, later, hsplit, hlength⟩ := h
  refine ⟨before, later ++ [newest], by simp [haccepted, hsplit], ?_⟩
  rw [hcapacity, List.length_append]
  exact Nat.le_add_right_of_le hlength

/-- The oldest value is given up when the outbox is full, that is, after so many others. -/
lemma Serves.recent (h : a.Serves request b) (hrule : a.box.rule ≠ .latest) (ha : a.Recent) :
    b.Recent := by
  cases h with
  | decline | lack => exact ha
  | close => exact ⟨ha.suffix, ha.outlived⟩
  | @give first rest hqueue =>
    obtain ⟨before, hbefore⟩ := ha.suffix
    refine ⟨⟨before ++ [first], ?_⟩, fun value hvalue hgone => ?_⟩
    · rw [← hbefore, hqueue, List.append_assoc]
      rfl
    · refine ha.outlived value hvalue ?_
      simpa [kept, hqueue] using hgone
  | @accept newest after hopen haccepts =>
    have hsuffix {front : List α} (hfront : front <:+ a.accepted) :
        front ++ [newest] <:+ a.accepted ++ [newest] := by
      obtain ⟨before, hbefore⟩ := hfront
      exact ⟨before, by rw [← hbefore, List.append_assoc]⟩
    cases haccepts with
    | append =>
      refine ⟨hsuffix ha.suffix, fun value hvalue hgone => ?_⟩
      simp only [kept, Outbox.append, List.mem_append, List.mem_singleton, not_or] at hvalue hgone
      have haccepted := hvalue.resolve_right hgone.2.2
      have hlost : value ∉ a.kept := by simp [kept, hgone.1, hgone.2.1]
      exact (ha.outlived value haccepted hlost).accept rfl rfl
    | overwrite _ hlatest => exact absurd hlatest hrule
    | evict hfull =>
      refine ⟨hsuffix ((List.tail_suffix _).trans ha.suffix), fun value hvalue hgone => ?_⟩
      simp only [kept, List.mem_append, List.mem_singleton, not_or] at hvalue hgone
      have haccepted := hvalue.resolve_right hgone.2.2
      by_cases hkept : value ∈ a.kept
      · -- It was the oldest one in a full outbox, and it makes room for the newest one.
        obtain ⟨before, hbefore⟩ := ha.suffix
        have hroom : a.box.capacity ≤ a.box.queue.length := of_decide_eq_true hfull
        obtain ⟨oldest, rest, hqueue⟩ := List.exists_cons_of_ne_nil (Outbox.ne_nil_of_isFull hfull)
        rw [hqueue] at hbefore hroom hgone
        obtain rfl : value = oldest := by
          simpa [kept, hqueue, hgone.1, show value ∉ rest from hgone.2.1] using hkept
        refine ⟨before, rest ++ [newest], by simp [← hbefore], ?_⟩
        simpa using hroom
      · exact (ha.outlived value haccepted hkept).accept rfl rfl

theorem recent_serveAll (capacity : Nat) (requests : List (Request α)) :
    ((create capacity .dropOldest).serveAll requests).Recent := by
  refine serveAll_induction_of_rule (P := Recent) ?_ (recent_create capacity .dropOldest) requests
  intro b request c hserves hsame hb
  have hrule : b.box.rule = .dropOldest := hsame
  exact hserves.recent (by simp [hrule]) hb

lemma mem_dropLast_kept (hvalue : value ∈ a.box.queue)
    (hnewest : a.box.queue.getLast? ≠ some value) :
    value ∈ a.kept.dropLast := by
  have hqueue : a.box.queue ≠ [] := List.ne_nil_of_mem hvalue
  rw [List.getLast?_eq_getLast_of_ne_nil hqueue] at hnewest
  rw [kept, List.dropLast_append_of_ne_nil hqueue]
  exact List.mem_append_right _
    (List.mem_dropLast_of_mem_of_ne_getLast hvalue fun hlast => hnewest (congrArg some hlast.symm))

/-- A value that is not the newest one is not given up for a newer one. -/
lemma Serves.mem_dropLast_kept (h : a.Serves request b) (hrule : a.box.rule ≠ .dropOldest)
    (hvalue : value ∈ a.kept.dropLast) : value ∈ b.kept.dropLast := by
  cases h with
  | decline | lack | close => exact hvalue
  | give hqueue => simpa [kept, hqueue] using hvalue
  | @accept newest after _ haccepts =>
    cases haccepts with
    | append =>
      have hkept : a.taken ++ (a.box.append newest).queue = a.kept ++ [newest] := by
        simp [kept, Outbox.append]
      rw [kept, hkept, List.dropLast_concat]
      exact List.dropLast_subset _ hvalue
    | evict _ hdrop => exact absurd hdrop hrule
    | overwrite hfull =>
      rw [kept, List.dropLast_append_of_ne_nil (Outbox.ne_nil_of_isFull hfull)] at hvalue
      rw [kept, ← List.append_assoc, List.dropLast_concat]
      exact hvalue

theorem mem_dropLast_kept_serveAll (hrule : a.box.rule ≠ .dropOldest)
    (hvalue : value ∈ a.kept.dropLast) (requests : List (Request α)) :
    value ∈ (a.serveAll requests).kept.dropLast := by
  refine serveAll_induction_of_rule (P := fun b => value ∈ b.kept.dropLast) ?_ hvalue requests
  intro b request c hserves hsame hb
  exact hserves.mem_dropLast_kept (by rwa [hsame]) hb

/-- Every value that found the outbox full took the place of another one. -/
lemma Serves.length_kept_add (h : a.Serves request b) (hrule : a.box.rule = .latest)
    (ha : a.kept.length + a.crowded = a.accepted.length) :
    b.kept.length + b.crowded = b.accepted.length := by
  unfold kept at ha ⊢
  rw [List.length_append] at ha ⊢
  cases h with
  | decline | lack | close => exact ha
  | give hqueue =>
    rw [hqueue, List.length_cons] at ha
    simp only [List.length_append, List.length_singleton]
    omega
  | accept _ haccepts =>
    cases haccepts with
    | append hroom =>
      have hfree : a.box.isFull = false := hroom.resolve_right (by rw [hrule]; decide)
      simp only [Outbox.append, hfree, List.length_append, List.length_singleton]
      simp only [Bool.false_eq_true, if_false]
      omega
    | evict _ hdrop =>
      rw [hrule] at hdrop
      cases hdrop
    | overwrite hfull =>
      have hpos := List.length_pos_iff.mpr (Outbox.ne_nil_of_isFull hfull)
      simp only [hfull, List.length_append, List.length_dropLast, List.length_singleton, if_true]
      omega

theorem length_kept_serveAll_add (hrule : a.box.rule = .latest)
    (ha : a.kept.length + a.crowded = a.accepted.length) (requests : List (Request α)) :
    (a.serveAll requests).kept.length + (a.serveAll requests).crowded =
      (a.serveAll requests).accepted.length := by
  refine serveAll_induction_of_rule
    (P := fun b => b.kept.length + b.crowded = b.accepted.length) ?_ ha requests
  intro b request c hserves hsame hb
  exact hserves.length_kept_add (hsame.trans hrule) hb

end Account

section Numbers

variable {α : Type}

/-- The requests, each value with the number of its request. -/
def numbered (requests : List (Request α)) : List (Request (Nat × α)) :=
  requests.mapIdx fun n request => request.map (n, ·)

lemma numbered_concat (requests : List (Request α)) (request : Request α) :
    numbered (requests ++ [request]) =
      numbered requests ++ [request.map (requests.length, ·)] :=
  List.mapIdx_concat

lemma exists_numbered_append (requests more : List (Request α)) :
    ∃ rest, numbered (requests ++ more) = numbered requests ++ rest :=
  ⟨_, List.mapIdx_append⟩

lemma map_snd_numbered (requests : List (Request α)) :
    (numbered requests).map (Request.map Prod.snd) = requests := by
  induction requests using List.reverseRecOn with
  | nil => rfl
  | append_singleton requests request ih =>
    rw [numbered_concat, List.map_append, ih]
    cases request <;> rfl

namespace Account

variable {a b : Account (Nat × α)} {request : Request α} {n m : Nat}

/-- The numbers of the values that were given up. -/
def lost (a : Account (Nat × α)) : List Nat :=
  (a.accepted.map Prod.fst).filter (· ∉ a.kept.map Prod.fst)

/-- The values carry different numbers below `n`. -/
structure Numbered (n : Nat) (a : Account (Nat × α)) : Prop where
  lt : ∀ m ∈ a.accepted.map Prod.fst, m < n
  nodup : (a.accepted.map Prod.fst).Nodup
  kept : a.kept.Sublist a.accepted

lemma numbered_create (capacity : Nat) (rule : Overflow) :
    (create capacity rule : Account (Nat × α)).Numbered 0 :=
  ⟨by simp [create], List.nodup_nil, List.Sublist.refl _⟩

lemma Serves.numbered (h : a.Serves (request.map (n, ·)) b) (ha : a.Numbered n) :
    b.Numbered (n + 1) := by
  have hkept := h.kept_sublist ha.kept
  have hlt (m : Nat) (hm : m ∈ a.accepted.map Prod.fst) : m < n + 1 :=
    Nat.lt_succ_of_lt (ha.lt m hm)
  cases request with
  | pop =>
    cases h with
    | give => exact ⟨hlt, ha.nodup, hkept⟩
    | lack => exact ⟨hlt, ha.nodup, hkept⟩
  | close =>
    cases h with
    | close => exact ⟨hlt, ha.nodup, hkept⟩
  | push value =>
    cases h with
    | decline => exact ⟨hlt, ha.nodup, hkept⟩
    | accept =>
      have hfresh : n ∉ a.accepted.map Prod.fst := fun hn => Nat.lt_irrefl n (ha.lt n hn)
      refine ⟨fun m hm => ?_, ?_, hkept⟩
      · rw [List.map_append, List.mem_append] at hm
        rcases hm with hm | hm
        · exact hlt m hm
        · rw [List.mem_singleton.mp hm]
          exact Nat.lt_succ_self n
      · rw [List.map_append]
        exact ha.nodup.append (List.nodup_singleton n) (by simpa using hfresh)

theorem numbered_serveAll (ha : a.Numbered 0) (requests : List (Request α)) :
    (a.serveAll (Delivery.numbered requests)).Numbered requests.length := by
  induction requests using List.reverseRecOn with
  | nil => exact ha
  | append_singleton requests request ih =>
    rw [numbered_concat, serveAll_append, List.length_append]
    exact (serves_serve _ (request.map _)).numbered ih

/-- As the numbers are different, what is not lost is kept. -/
lemma Numbered.length_lost_add (ha : a.Numbered n) :
    a.lost.length + a.kept.length = a.accepted.length := by
  have hkept := ha.kept.map Prod.fst
  have hsame : ((a.accepted.map Prod.fst).filter (· ∈ a.kept.map Prod.fst)).Perm
      (a.kept.map Prod.fst) := by
    rw [List.perm_ext_iff_of_nodup (ha.nodup.filter _) (hkept.nodup ha.nodup)]
    intro m
    rw [List.mem_filter, decide_eq_true_iff]
    exact ⟨And.right, fun hm => ⟨hkept.subset hm, hm⟩⟩
  have hsplit := List.length_eq_length_filter_add (l := a.accepted.map Prod.fst)
    (· ∈ a.kept.map Prod.fst)
  rw [hsame.length_eq, List.length_map, List.length_map] at hsplit
  simp only [lost, decide_not]
  omega

lemma mem_lost : n ∈ a.lost ↔ n ∈ a.accepted.map Prod.fst ∧ n ∉ a.kept.map Prod.fst := by
  rw [lost, List.mem_filter, decide_eq_true_iff]

lemma lost_congr (hkept : b.kept = a.kept) (haccepted : b.accepted = a.accepted) :
    b.lost = a.lost := by
  unfold lost
  rw [hkept, haccepted]

/-- A new value takes the last place behind `front`, and what was in that place is lost. -/
lemma Numbered.mem_lost_iff {front former : List (Nat × α)} {newest : Nat × α} (ha : a.Numbered n)
    (hnewest : newest.1 = n) (hfront : a.kept = front ++ former)
    (hkept : b.kept = front ++ [newest])
    (haccepted : b.accepted = a.accepted ++ [newest]) :
    (m ∈ b.lost ∧ m ∉ a.lost) ↔ m ∈ former.map Prod.fst := by
  have hnodup := (ha.kept.map Prod.fst).nodup ha.nodup
  have hsubset := (ha.kept.map Prod.fst).subset
  rw [hfront, List.map_append] at hnodup hsubset
  have hdisjoint : m ∈ former.map Prod.fst → m ∉ front.map Prod.fst := fun hformer hm =>
    (List.nodup_append.mp hnodup).2.2 m hm m hformer rfl
  have hold : m ∈ former.map Prod.fst → m ∈ a.accepted.map Prod.fst := fun hm =>
    hsubset (List.mem_append_right _ hm)
  have hne : m ∈ a.accepted.map Prod.fst → m ≠ n := fun hm => Nat.ne_of_lt (ha.lt m hm)
  rw [mem_lost, mem_lost, hkept, haccepted, hfront]
  simp only [List.map_append, List.mem_append, List.map_singleton, List.mem_singleton, hnewest]
  tauto

/-- The newest value of a full outbox is lost to the next one, and no other value is lost. -/
lemma Serves.mem_lost_iff (h : a.Serves (request.map (n, ·)) b) (hrule : a.box.rule = .latest)
    (ha : a.Numbered n) : (m ∈ b.lost ∧ m ∉ a.lost) ↔ (∃ value, request = .push value) ∧
      a.box.isClosed = false ∧ a.box.isFull = true ∧
        a.box.queue.getLast?.map Prod.fst = some m := by
  have hunchanged (heq : b.lost = a.lost) : ¬ (m ∈ b.lost ∧ m ∉ a.lost) := by
    rw [heq]
    exact fun hm => hm.2 hm.1
  cases request with
  | pop =>
    refine iff_of_false (hunchanged ?_) (by simp)
    cases h with
    | give hqueue => exact lost_congr (by simp [kept, hqueue]) rfl
    | lack => rfl
  | close =>
    refine iff_of_false (hunchanged ?_) (by simp)
    cases h with
    | close => rfl
  | push value =>
    cases h with
    | decline hdeclined =>
      refine iff_of_false (hunchanged rfl) ?_
      rintro ⟨-, hopen, -⟩
      obtain ⟨after, hpush⟩ := Outbox.exists_accepted hopen (by simp [hrule]) (by simp [hrule])
        (n, value)
      exact hdeclined after hpush
    | accept hopen haccepts =>
      cases haccepts with
      | append hroom =>
        have hfree : a.box.isFull = false := hroom.resolve_right (by simp [hrule])
        have hkept : a.taken ++ (a.box.append (n, value)).queue = a.kept ++ [(n, value)] := by
          simp [kept, Outbox.append]
        refine Iff.trans (ha.mem_lost_iff rfl (List.append_nil _).symm hkept rfl) ?_
        simp [hfree]
      | evict _ hdrop =>
        rw [hrule] at hdrop
        cases hdrop
      | overwrite hfull =>
        have hlast := List.dropLast_concat_getLast (Outbox.ne_nil_of_isFull hfull)
        have hfront : a.kept = (a.taken ++ a.box.queue.dropLast) ++
            [a.box.queue.getLast (Outbox.ne_nil_of_isFull hfull)] := by
          rw [List.append_assoc, hlast, kept]
        refine Iff.trans (ha.mem_lost_iff rfl hfront (List.append_assoc _ _ _).symm rfl) ?_
        rw [List.getLast?_eq_getLast_of_ne_nil (Outbox.ne_nil_of_isFull hfull)]
        simp [hopen, hfull, eq_comm]

/-- The account of an outbox that gives up values. It holds no more than it has room for and takes
every value until it is closed; what it has not given up is still in order, the last accepted value
among it. If it gives up the oldest values, it holds the latest ones, and a lost value has been
followed by as many others as there is room for. If it gives up the newest value, a value is lost
whenever another one is accepted right behind it without room, and at no other time. -/
theorem lossy_outbox_account (capacity : Nat) (rule : Overflow)
    (hrule : rule = .dropOldest ∨ rule = .latest) (requests : List (Request α)) :
    let plain := (create capacity rule).serveAll requests
    let after (requests : List (Request α)) := (create capacity rule).serveAll (numbered requests)
    let a := after requests
    a.map Prod.snd = plain ∧ a.Numbered requests.length ∧
    plain.box.size ≤ max capacity 1 ∧
    (plain.box.isClosed = false → ∀ value, ∃ box, plain.box.push value = .accepted box) ∧
    plain.kept.Sublist plain.accepted ∧
    plain.kept.getLast? = plain.accepted.getLast? ∧
    (rule = .dropOldest → plain.box.queue <:+ plain.accepted ∧
      ∀ n ∈ a.lost, ∃ before value later,
        a.accepted = before ++ (n, value) :: later ∧ max capacity 1 ≤ later.length) ∧
    (rule = .latest →
      (∀ request n, (n ∈ (after (requests ++ [request])).lost ∧ n ∉ a.lost) ↔
        (∃ value, request = .push value) ∧ a.box.isClosed = false ∧ a.box.isFull = true ∧
          a.box.queue.getLast?.map Prod.fst = some n) ∧
      (∀ entry ∈ a.box.queue, a.box.queue.getLast? ≠ some entry →
        ∀ more, entry.1 ∉ (after (requests ++ more)).lost) ∧
      a.lost.length = a.crowded) := by
  intro plain after a
  have hothers : rule ≠ .buffer ∧ rule ≠ .refuse ∧ rule ≠ .block := by
    rcases hrule with rfl | rfl <;> decide
  have hplain : plain.box.rule = rule := rule_serveAll _ _
  have hnumbered : a.Numbered requests.length :=
    numbered_serveAll (numbered_create capacity rule) requests
  refine ⟨?_, hnumbered, size_serveAll_le hothers.1 (Nat.zero_le _) _, fun hopen => ?_,
    kept_sublist_serveAll (List.Sublist.refl _) _, getLast?_kept_serveAll rfl _, ?_, ?_⟩
  · have hmap :=
      serveAll_map Prod.snd (create capacity rule : Account (Nat × α)) (numbered requests)
    rw [map_snd_numbered] at hmap
    exact hmap.symm
  · rw [← hplain] at hothers
    exact Outbox.exists_accepted hopen hothers.2.1 hothers.2.2
  · rintro rfl
    have hrecent : a.Recent := recent_serveAll capacity (numbered requests)
    have hcapacity : a.box.capacity = max capacity 1 := capacity_serveAll _ _
    refine ⟨(recent_serveAll capacity requests).suffix, fun n hn => ?_⟩
    obtain ⟨haccepted, hgone⟩ := mem_lost.mp hn
    obtain ⟨⟨_, value⟩, hmem, rfl⟩ := List.mem_map.mp haccepted
    obtain ⟨before, later, hsplit, hlength⟩ :=
      hrecent.outlived _ hmem fun hkept => hgone (List.mem_map_of_mem hkept)
    rw [hcapacity] at hlength
    exact ⟨before, value, later, hsplit, hlength⟩
  · rintro rfl
    have hlatest : a.box.rule = .latest := rule_serveAll _ _
    refine ⟨fun request n => ?_, fun entry hentry hnewest more => ?_, ?_⟩
    · have hserves := a.serves_serve (request.map (requests.length, ·))
      have hafter : after (requests ++ [request]) = a.serve (request.map (requests.length, ·)) := by
        change (create capacity .latest).serveAll _ = _
        rw [numbered_concat, serveAll_append]
        rfl
      rw [hafter]
      exact hserves.mem_lost_iff hlatest hnumbered
    · obtain ⟨rest, hrest⟩ := exists_numbered_append requests more
      have hafter : after (requests ++ more) = a.serveAll rest := by
        change (create capacity .latest).serveAll _ = _
        rw [hrest, serveAll_append]
      have hfront : entry ∈ a.kept.dropLast := mem_dropLast_kept hentry hnewest
      have hkept := mem_dropLast_kept_serveAll (by simp [hlatest]) hfront rest
      rw [hafter, mem_lost]
      exact fun hlost => hlost.2 (List.mem_map_of_mem (List.dropLast_subset _ hkept))
    · have hlength := hnumbered.length_lost_add
      have hcrowded : a.kept.length + a.crowded = a.accepted.length :=
        length_kept_serveAll_add rfl rfl _
      omega

/-- Three equal values in an outbox with room for two: the second one is lost. -/
theorem lossy_outbox_account_latest :
    let requests : List (Request Char) := [.push 'a', .push 'a', .push 'a', .pop, .close, .push 'b']
    let a := (create 2 .latest).serveAll (numbered requests)
    (Overflow.latest = .dropOldest ∨ Overflow.latest = .latest) ∧
      a.accepted = [(0, 'a'), (1, 'a'), (2, 'a')] ∧ a.taken = [(0, 'a')] ∧
      a.box.queue = [(2, 'a')] ∧ a.lost = [1] ∧ a.lost.length = a.crowded := by
  intro requests a
  have h := lossy_outbox_account 2 .latest (Or.inr rfl) requests
  exact ⟨Or.inr rfl, rfl, rfl, rfl, by decide, (h.2.2.2.2.2.2.2 rfl).2.2⟩

end Account

end Numbers

end Redial.Delivery
