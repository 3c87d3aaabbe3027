import Mathlib.Data.List.Induction
import Mathlib.Logic.Function.Basic
import Redial.Proofs.Signatures

/-!
# Choices

The choices of a draft come in groups, one for each thing that can be chosen. Of the choices of one
group the last one counts, whatever else is chosen and when. What is built from them has one name
and one feed, and all its events bear this name and go to this feed, also those that its handle
causes.
-/

namespace Redial

/-- What is chosen. -/
inductive Choice.Group where
  | body
  | name
  | limit
  | retryUnsuccessful
  | predicate
  | onSuccess
  | onFailure
  | backoff
  | delivery
  | feed
  | events
  deriving DecidableEq

namespace Choice

def group : Choice → Group
  | .body _ => .body
  | .name _ => .name
  | .maxRetries _ _ | .limit _ => .limit
  | .retryUnsuccessful _ => .retryUnsuccessful
  | .predicate _ | .maybePredicate _ => .predicate
  | .onSuccess _ => .onSuccess
  | .onFailure _ => .onFailure
  | .backoff _ => .backoff
  | .delivery _ => .delivery
  | .feed _ => .feed
  | .withEvents => .events

/-- The last choice of a group, if there is one. -/
def lastIn (choices : List Choice) (g : Group) : Option Choice :=
  (choices.filter fun choice => choice.group = g).getLast?

variable {choices : List Choice} {g : Group} {choice : Choice}

lemma lastIn_eq_none : lastIn choices g = none ↔ ∀ choice ∈ choices, choice.group ≠ g := by
  unfold lastIn
  rw [List.getLast?_eq_none_iff, List.filter_eq_nil_iff]
  simp only [decide_eq_true_eq]

lemma mem_of_lastIn (h : lastIn choices g = some choice) : choice ∈ choices ∧ choice.group = g := by
  obtain ⟨hmem, hgroup⟩ := List.mem_filter.mp (List.mem_of_getLast? h)
  exact ⟨hmem, of_decide_eq_true hgroup⟩

lemma lastIn_append_cons {rest : List Choice} (h : ∀ other ∈ rest, other.group ≠ choice.group)
    (front : List Choice) : lastIn (front ++ choice :: rest) choice.group = some choice := by
  have hnone : rest.filter (fun other => other.group = choice.group) = [] :=
    List.filter_eq_nil_iff.mpr fun other hother => by simpa using h other hother
  unfold lastIn
  rw [List.filter_append, List.filter_cons_of_pos (by simp), hnone, List.getLast?_concat]

lemma lastIn_concat (choices : List Choice) (choice : Choice) :
    lastIn (choices ++ [choice]) = Function.update (lastIn choices) choice.group (some choice) := by
  funext g
  unfold lastIn
  rw [List.filter_append]
  by_cases h : choice.group = g
  · subst h
    rw [Function.update_self, List.filter_cons_of_pos (by simp), List.filter_nil,
      List.getLast?_concat]
  · rw [Function.update_of_ne (Ne.symm h), List.filter_cons_of_neg (by simpa using h),
      List.filter_nil, List.append_nil]

end Choice

/-- The plan has all that the draft says, and what is usual where the draft leaves it open. -/
structure Draft.Makes (draft : Draft) (usual : Delivery.Settings) (draws : Nat → Nat)
    (plan : Plan) : Prop where
  body : draft.body = some plan.body
  name : plan.name = draft.name
  limit : plan.limit = draft.limit
  rule : plan.rule = ⟨draft.predicate, draft.retryUnsuccessful⟩
  backoff : plan.backoff = draft.backoff
  draws : plan.draws = draws
  onSuccess : plan.onSuccess = draft.onSuccess
  onFailure : plan.onFailure = draft.onFailure
  delivery : plan.delivery = draft.delivery.getD usual
  feed : plan.feed = draft.feedChoice

namespace Draft

open Choice

lemma makes_of_plan {draft : Draft} {usual : Delivery.Settings} {draws : Nat → Nat} {plan : Plan}
    (h : draft.plan usual draws = .ok plan) : draft.Makes usual draws plan := by
  unfold Draft.plan at h
  split at h
  case h_1 => cases h
  case h_2 body hbody =>
    cases h
    exact ⟨hbody, rfl, rfl, rfl, rfl, rfl, rfl, rfl, rfl, rfl⟩

/-- The draft in which the last choice of each group is kept. -/
def ofLast (last : Group → Option Choice) : Draft where
  body := match last .body with
    | some (.body body) => some body
    | _ => none
  name := match last .name with
    | some (.name name) => name
    | _ => "call"
  limit := match last .limit with
    | some (.maxRetries n negative) => .ofInt n negative
    | some (.limit limit) => limit
    | _ => .zero
  retryUnsuccessful := match last .retryUnsuccessful with
    | some (.retryUnsuccessful enabled) => enabled
    | _ => false
  predicate := match last .predicate with
    | some (.predicate predicate) => some predicate
    | some (.maybePredicate predicate) => predicate
    | _ => none
  onSuccess := match last .onSuccess with
    | some (.onSuccess callback) => some callback
    | _ => none
  onFailure := match last .onFailure with
    | some (.onFailure callback) => some callback
    | _ => none
  backoff := match last .backoff with
    | some (.backoff backoff) => backoff
    | _ => .immediate
  delivery := match last .delivery with
    | some (.delivery settings) => some settings
    | _ => none
  feed := match last .feed with
    | some (.feed feed) => some feed
    | _ => none
  events := (last .events).isSome

/-- One more choice replaces the last one of its group. -/
lemma ofLast_update (last : Group → Option Choice) (choice : Choice) :
    ofLast (Function.update last choice.group (some choice)) = (ofLast last).choose choice := by
  cases choice <;> rfl

lemma ofChoices_concat (choices : List Choice) (choice : Choice) :
    ofChoices (choices ++ [choice]) = (ofChoices choices).choose choice :=
  List.foldl_append

/-- A draft keeps the last choice of each group. -/
theorem ofChoices_eq (choices : List Choice) : ofChoices choices = ofLast (lastIn choices) := by
  induction choices using List.reverseRecOn with
  | nil => rfl
  | append_singleton choices choice ih =>
    rw [lastIn_concat, ofLast_update, ← ih, ofChoices_concat]

variable {choices choices' : List Choice}

lemma ofChoices_congr (h : ∀ g, lastIn choices g = lastIn choices' g) :
    ofChoices choices = ofChoices choices' := by
  rw [ofChoices_eq, ofChoices_eq, funext h]

/-- There is a body just if one was chosen. -/
lemma exists_body_iff : (∃ body, (ofChoices choices).body = some body) ↔
    ∃ body, Choice.body body ∈ choices := by
  rw [ofChoices_eq, ofLast]
  cases hlast : lastIn choices .body with
  | none =>
    constructor
    · rintro ⟨body, hbody⟩
      cases hbody
    · rintro ⟨body, hbody⟩
      exact absurd rfl (lastIn_eq_none.mp hlast _ hbody)
  | some choice =>
    obtain ⟨hmem, hgroup⟩ := mem_of_lastIn hlast
    cases choice with
    | body body => exact ⟨fun _ => ⟨body, hmem⟩, fun _ => ⟨body, rfl⟩⟩
    | _ => cases hgroup

/-- The last feed that was chosen counts, whether and when events are asked for. -/
lemma feedChoice_of_feed {rest : List Choice} (h : ∀ other, Choice.feed other ∉ rest)
    (front : List Choice) (feed : FeedId) :
    (ofChoices (front ++ .feed feed :: rest)).feedChoice = .shared feed := by
  have hother : ∀ other ∈ rest, other.group ≠ (Choice.feed feed).group := by
    intro other hother hgroup
    cases other with
    | feed other => exact h other hother
    | _ => cases hgroup
  have hlast : lastIn (front ++ .feed feed :: rest) .feed = some (.feed feed) :=
    lastIn_append_cons hother front
  rw [ofChoices_eq, ofLast, feedChoice, hlast]

/-- Without a feed, it counts whether events were asked for at all. -/
lemma feedChoice_of_no_feed (h : ∀ feed, Choice.feed feed ∉ choices) :
    (Choice.withEvents ∈ choices → (ofChoices choices).feedChoice = .own) ∧
      (Choice.withEvents ∉ choices → (ofChoices choices).feedChoice = .none) := by
  have hfeed : lastIn choices .feed = none :=
    lastIn_eq_none.mpr fun other hother hgroup => by
      cases other with
      | feed feed => exact h feed hother
      | _ => cases hgroup
  rw [ofChoices_eq, ofLast, feedChoice, hfeed]
  cases hevents : lastIn choices .events with
  | none =>
    exact ⟨fun hasked => absurd rfl (lastIn_eq_none.mp hevents _ hasked), fun _ => rfl⟩
  | some choice =>
    obtain ⟨hmem, hgroup⟩ := mem_of_lastIn hevents
    cases choice with
    | withEvents => exact ⟨fun _ => rfl, fun hnot => absurd hmem hnot⟩
    | _ => cases hgroup

end Draft

namespace Exchange

open Draft

variable {x : Exchange} {past : List Receipt} {capacities : List Nat} {first : Nat}
  {choices : List Choice} {usual : Delivery.Settings} {draws : Nat → Nat}

/-- A draft without a body is no call. -/
lemma addDraft_of_no_body (h : ∀ body, Choice.body body ∉ choices) :
    x.addDraft (ofChoices choices) usual draws =
      (.error .missingBody, { x with calls := x.calls ++ [none] }) := by
  cases hbody : (ofChoices choices).body with
  | none => rw [addDraft, Draft.plan, hbody]
  | some body =>
    obtain ⟨body, hchosen⟩ := exists_body_iff.mp ⟨body, hbody⟩
    exact absurd hchosen (h body)

/-- A draft with a body is a call of its plan. -/
lemma addDraft_of_body {body : Body} (h : .body body ∈ choices) :
    ∃ plan, (ofChoices choices).plan usual draws = .ok plan ∧
      x.addDraft (ofChoices choices) usual draws = (.ok (), x.addPlan plan true) := by
  obtain ⟨last, hbody⟩ := exists_body_iff.mpr ⟨body, h⟩
  have hplan : ∃ plan, (ofChoices choices).plan usual draws = .ok plan := by
    rw [Draft.plan, hbody]
    exact ⟨_, rfl⟩
  obtain ⟨plan, hplan⟩ := hplan
  exact ⟨plan, hplan, by rw [addDraft, hplan]⟩

/-- A new call keeps its plan, and its handle keeps the name of the plan and the feed that the plan
asks for. -/
lemma badge_of_addPlan {plan : Plan} {later : List Receipt} {z : Exchange}
    (hz : (x.addPlan plan true).Chronicle later z) : ∃ call, z.call? x.calls.length = some call ∧
      call.plan = plan ∧ call.badge = ⟨plan.name, x.feedFor plan⟩ := by
  obtain ⟨call, hcall, hplan, hfeed⟩ := (Signs.chronicle hz).calls _ _ (call?_addPlan x plan true)
  refine ⟨call, hcall, hplan, ?_⟩
  rw [call.badge_eq, hplan, hfeed]
  rfl

/-- Whoever has a new call tell of an event, the event bears the name of its plan and goes to the
feed that the plan asks for. -/
lemma signed_of_addPlan (hx : Chronicle (.withFeeds capacities first) past x)
    (plan : Plan) {later : List Receipt} {z : Exchange}
    (hz : (x.addPlan plan true).Chronicle later z) {t : Telling} (ht : t ∈ z.tellings) (hcall : t.call = x.calls.length) :
    t.notice.call = some plan.name ∧ t.place.map Prod.fst = x.feedFor plan := by
  have hbegun := (hx.append (.addPlan x plan true)).append hz
  obtain ⟨call, hknown, hname, hplace⟩ := isSignedBy_of_chronicle hbegun t ht
  obtain ⟨after, hafter, hplan, hfeed⟩ := (Signs.chronicle hz).calls _ _ (call?_addPlan x plan true)
  rw [hcall, hafter] at hknown
  cases hknown
  rw [hplan] at hname
  rw [hfeed] at hplace
  exact ⟨hname, hplace⟩

/-- The last choice of each group decides what is built: the draft is the one in which just these
are kept. So drafts with the same last choices are the same call, and choices of different groups
can change places. A feed that was chosen last of all feeds is used wherever events were asked for,
and without one it only matters whether they were. Without a body nothing is built. Otherwise there
is a call, and its plan has everything from these last choices. Call and handle share a name and a
feed: the handle keeps those of the plan, and all events that are ever told of the call, by its runs
or by others on its handle, bear this name and go to this feed. -/
theorem last_choices_decide (hx : Chronicle (.withFeeds capacities first) past x)
    (usual : Delivery.Settings) (draws : Nat → Nat) :
    (∀ choices, ofChoices choices = ofLast (Choice.lastIn choices)) ∧
    (∀ choices choices', (∀ g, Choice.lastIn choices g = Choice.lastIn choices' g) →
      x.addDraft (ofChoices choices) usual draws = x.addDraft (ofChoices choices') usual draws) ∧
    (∀ choices choices' : List Choice,
      (∀ g, choices.filter (·.group = g) = choices'.filter (·.group = g)) →
      x.addDraft (ofChoices choices) usual draws = x.addDraft (ofChoices choices') usual draws) ∧
    (∀ front feed rest, (∀ other, Choice.feed other ∉ rest) →
      (ofChoices (front ++ .feed feed :: rest)).feedChoice = .shared feed) ∧
    (∀ choices, (∀ feed, Choice.feed feed ∉ choices) →
      (.withEvents ∈ choices → (ofChoices choices).feedChoice = .own) ∧
      (.withEvents ∉ choices → (ofChoices choices).feedChoice = .none)) ∧
    ∀ choices answer y, x.addDraft (ofChoices choices) usual draws = (answer, y) →
      ((∀ body, .body body ∉ choices) →
        answer = .error .missingBody ∧ y.call? x.calls.length = none) ∧
      ∀ body, .body body ∈ choices → answer = .ok () ∧
        ∃ plan, (ofChoices choices).plan usual draws = .ok plan ∧
          (ofLast (Choice.lastIn choices)).Makes usual draws plan ∧
          plan.name = (ofChoices choices).name ∧ plan.feed = (ofChoices choices).feedChoice ∧
          y.call? x.calls.length = some (plan.toCall (x.feedFor plan) true) ∧
          ∀ later z, y.Chronicle later z →
            (∃ call, z.call? x.calls.length = some call ∧ call.plan = plan ∧
              call.badge = ⟨(ofChoices choices).name, x.feedFor plan⟩) ∧
            ∀ t ∈ z.tellings, t.call = x.calls.length →
              t.notice.call = some plan.name ∧ t.place.map Prod.fst = x.feedFor plan := by
  refine ⟨ofChoices_eq, fun choices choices' h => ?_, fun choices choices' h => ?_,
    fun front feed rest h => feedChoice_of_feed h front feed, fun choices => feedChoice_of_no_feed,
    fun choices answer y hbuilt => ⟨fun hnone => ?_, fun body hbody => ?_⟩⟩
  · rw [ofChoices_congr h]
  · rw [ofChoices_congr fun g => congrArg List.getLast? (h g)]
  · cases (addDraft_of_no_body hnone).symm.trans hbuilt
    refine ⟨rfl, ?_⟩
    unfold call?
    simp
  · obtain ⟨plan, hplan, hadded⟩ := addDraft_of_body hbody
    cases hadded.symm.trans hbuilt
    have hmakes := makes_of_plan hplan
    have hbadge {later : List Receipt} {z : Exchange}
        (hz : (x.addPlan plan true).Chronicle later z) := badge_of_addPlan hz
    rw [hmakes.name] at hbadge
    exact ⟨rfl, plan, hplan, ofChoices_eq choices ▸ hmakes, hmakes.name, hmakes.feed,
      call?_addPlan x plan true, fun later z hz => ⟨hbadge hz,
        fun t ht hcall => signed_of_addPlan hx plan hz ht hcall⟩⟩

/-- A feed is chosen after events were asked for, a name twice, and a limit in two ways. What counts
is the same as if only the last of these choices had been made, in another order, and the disposal
of the handle is told under the last name. -/
theorem last_choices_decide_overridden :
    let body : Body := fun _ => .done (.error .canceled)
    let choices : List Choice :=
      [.withEvents, .name "first", .feed 0, .limit (.ofNat 3), .body body, .name "second",
        .maxRetries (-5) .once]
    let choices' : List Choice :=
      [.body body, .maxRetries (-5) .once, .name "second", .feed 0, .withEvents]
    let x : Exchange := { feeds := [4].map Feed.create }
    let y := (x.addDraft (ofChoices choices) (.usual .latest) fun _ => 0).2
    x.addDraft (ofChoices choices) (.usual .latest) (fun _ => 0) =
        x.addDraft (ofChoices choices') (.usual .latest) (fun _ => 0) ∧
      (ofChoices choices).limit = .ofNat 1 ∧ (ofChoices choices).feedChoice = .shared 0 ∧
      (y.dispose 0).2.tellings.map (·.notice.kind) = [.handleDisposed] ∧
      ∀ t ∈ (y.dispose 0).2.tellings,
        t.notice.call = some "second" ∧ t.place.map Prod.fst = some 0 := by
  intro body choices choices' x y
  have hbegun : Chronicle (.withFeeds [4] 0) [] x := .nil x
  obtain ⟨-, hsame, -, hfeed, -, hbuilt⟩ := last_choices_decide hbegun (.usual .latest) fun _ => 0
  obtain ⟨-, plan, -, -, hname, hplanned, -, hsigned⟩ :=
    (hbuilt choices _ _ rfl).2 body (by simp [choices])
  refine ⟨hsame choices choices' fun g => by cases g <;> rfl, rfl, ?_, by decide +kernel, ?_⟩
  · exact hfeed [.withEvents, .name "first"] 0 _ (by simp)
  · intro t ht
    have hcalls : (y.dispose 0).2.tellings.map (·.call) = [0] := by decide +kernel
    have hcall : t.call = 0 := List.mem_singleton.mp (hcalls ▸ List.mem_map_of_mem ht)
    have hplace : x.feedFor plan = some 0 := by
      rw [feedFor, hplanned]
      rfl
    obtain ⟨hsaid, hwent⟩ := (hsigned [] _ (.dispose y 0)).2 t ht hcall
    exact ⟨hsaid.trans (congrArg some hname), hwent.trans hplace⟩

end Exchange

end Redial
