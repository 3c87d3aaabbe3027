import Redial.Proofs.CallLives
import Redial.Proofs.EventNumbers
import Redial.Proofs.OrderlyScenes
import Redial.Proofs.SharedHandles

/-!
# Releases

However the use of a call comes to its end, its handle is disposed then, which is told once, and
from then on nothing more happens to the call. It makes no difference whether somebody disposed the
handle before, nor how the last run ended. The feed of the call takes in what it tells then, for
whoever reads it.
-/

namespace Redial

open StateTransition

/-- The notice of call `c` that an entry tells, and where it was published. -/
def Entry.told? (c : CallId) : Entry → Option (Notice × Option (FeedId × Nat))
  | .told call notice place => if call = c then some (notice, place) else none
  | _ => none

lemma Entry.told?_eq_none {entry : Entry} (h : entry.isTold = false) (c : CallId) :
    entry.told? c = none := by
  cases entry with
  | told => cases h
  | _ => rfl

lemma Entry.told?_self (c : CallId) (notice : Notice) (place : Option (FeedId × Nat)) :
    (Entry.told c notice place).told? c = some (notice, place) := if_pos rfl

lemma Entry.told?_of_ne {c d : CallId} (hdc : d ≠ c) (notice : Notice)
    (place : Option (FeedId × Nat)) : (Entry.told d notice place).told? c = none := if_neg hdc

namespace Handle

variable {h : Handle}

lemma signalled_dispose (hlive : h.isDisposed = false) : h.dispose.2.signalled = true := by
  obtain ⟨state, signalled⟩ := h
  cases state with
  | idle | running => rfl
  | disposed => cases hlive

lemma signalled_start (h : Handle) : h.start.2.signalled = h.signalled := by
  obtain ⟨state, signalled⟩ := h
  cases state <;> rfl

end Handle

namespace Exchange

variable {x y : Exchange} {c d : CallId} {plan : Plan} {feed : Option FeedId}

/-- What call `c` has told of so far, oldest first, and where it was published. -/
def told (x : Exchange) (c : CallId) : List (Notice × Option (FeedId × Nat)) :=
  (x.journal.filterMap (Entry.told? c)).reverse

/-- How often call `c` has told that its handle was disposed. -/
def farewells (x : Exchange) (c : CallId) : Nat :=
  (x.told c).countP fun notice => notice.1.kind = .handleDisposed

lemma told_congr (h : y.journal = x.journal) (c : CallId) : y.told c = x.told c := by
  unfold told
  rw [h]

lemma told_note {entry : Entry} (h : entry.told? c = none) : (x.note entry).told c = x.told c := by
  unfold told note
  rw [List.filterMap_cons_none h]

lemma told_tell_of_ne (hdc : d ≠ c) (notice : Notice) : (x.tell d notice).told c = x.told c := by
  cases hcall : x.call? d with
  | none =>
    rw [tell_of_unknown hcall]
  | some call =>
    obtain ⟨place, -, hjournal⟩ := journal_tell hcall notice
    unfold told
    rw [hjournal, List.filterMap_cons_none (Entry.told?_of_ne hdc _ _)]

lemma told_tell_self {call : Call} (hcall : x.call? c = some call) (notice : Notice) :
    ∃ place : Option (FeedId × Nat), place.map Prod.fst = call.feed ∧ (x.tell c notice).told c =
      x.told c ++ [({ notice with call := some call.plan.name }, place)] := by
  obtain ⟨place, hplace, hjournal⟩ := journal_tell hcall notice
  refine ⟨place, hplace, ?_⟩
  unfold told
  rw [hjournal, List.filterMap_cons_some (Entry.told?_self c _ _), List.reverse_cons]

/-- The disposal that makes the difference is told of. -/
lemma told_dispose_of_live {call : Call} (hcall : x.call? c = some call)
    (hlive : call.handle.isDisposed = false) :
    ∃ place : Option (FeedId × Nat), place.map Prod.fst = call.feed ∧ (x.dispose c).2.told c =
      x.told c ++ [({ kind := .handleDisposed, call := some call.plan.name }, place)] := by
  have hafter : (x.modify c ({ · with handle := call.handle.dispose.2 })).call? c =
      some { call with handle := call.handle.dispose.2 } := by
    exact call?_modify_of_known hcall _
  rw [dispose_of_live hcall hlive]
  exact told_tell_self hafter { kind := .handleDisposed }

lemma told_dispose_of_ne (hdc : d ≠ c) : (x.dispose d).2.told c = x.told c := by
  cases hcall : x.call? d with
  | none => rw [dispose_of_unknown hcall]
  | some call =>
    cases hdisposed : call.handle.isDisposed with
    | true => rw [dispose_of_isDisposed hcall hdisposed]
    | false =>
      rw [dispose_of_live hcall hdisposed, told_tell_of_ne hdc]
      rfl

/-- Call `c` has `feed` for its events. Its signal is given if and only if its handle is disposed,
which it has told of once then, and all it has told of is on its feed. -/
structure Accounted (c : CallId) (feed : Option FeedId) (x : Exchange) : Prop where
  call : ∃ call, x.call? c = some call ∧ call.feed = feed ∧
    call.handle.signalled = call.handle.isDisposed ∧
    x.farewells c = call.handle.isDisposed.toNat
  places : ∀ notice ∈ x.told c, notice.2.map Prod.fst = feed

/-- If call `c` is gone, its handle is disposed. -/
def Parted (c : CallId) (x : Exchange) : Prop :=
  ∀ call, x.call? c = some call → call.presence = .gone → call.handle.isDisposed = true

/-- Call `c` is gone. -/
def IsGone (c : CallId) (x : Exchange) : Prop :=
  ∃ call, x.call? c = some call ∧ call.presence = .gone

instance (c : CallId) (x : Exchange) : Decidable (x.IsGone c) :=
  decidable_of_iff ((x.call? c).map (·.presence) = some .gone) Option.map_eq_some_iff

/-- Nobody can do anything with call `c` any more: it is gone and disposed, or was never there. -/
def Spent (c : CallId) (x : Exchange) : Prop :=
  ∀ call, x.call? c = some call → call.presence = .gone ∧ call.handle.isDisposed = true

/-- Call `c` is as before and has told of nothing more. -/
def Leaves (c : CallId) (x y : Exchange) : Prop := y.call? c = x.call? c ∧ y.told c = x.told c

namespace Leaves

variable {z : Exchange}

lemma refl (c : CallId) (x : Exchange) : Leaves c x x := ⟨rfl, rfl⟩

lemma trans (hxy : Leaves c x y) (hyz : Leaves c y z) : Leaves c x z :=
  ⟨hyz.1.trans hxy.1, hyz.2.trans hxy.2⟩

end Leaves

lemma leaves_of_same (hcalls : y.calls = x.calls) (hjournal : y.journal = x.journal) :
    Leaves c x y := ⟨call?_congr hcalls c, told_congr hjournal c⟩

lemma leaves_note {entry : Entry} (h : entry.isTold = false) : Leaves c x (x.note entry) :=
  ⟨rfl, told_note (Entry.told?_eq_none h c)⟩

lemma leaves_modify_of_ne (hdc : d ≠ c) (f : Call → Call) : Leaves c x (x.modify d f) :=
  ⟨call?_modify_of_ne x f hdc, rfl⟩

lemma leaves_tell_of_ne (hdc : d ≠ c) (notice : Notice) : Leaves c x (x.tell d notice) :=
  ⟨call?_tell x d notice c, told_tell_of_ne hdc notice⟩

lemma leaves_dispose_of_ne (hdc : d ≠ c) : Leaves c x (x.dispose d).2 := by
  refine ⟨?_, told_dispose_of_ne hdc⟩
  rw [call?_dispose, if_neg hdc]

lemma leaves_release_of_ne (hdc : d ≠ c) : Leaves c x (x.release d) :=
  (leaves_dispose_of_ne hdc).trans (leaves_modify_of_ne hdc _)

lemma leaves_perform_of_ne (hdc : d ≠ c) (deed : Deed) : Leaves c x (x.perform deed d).2 := by
  rcases perform_cases x deed d with hsame | hdisposed | ⟨call, -, -, hdropped⟩
  · rw [hsame]
    exact .refl c x
  · rw [hdisposed]
    exact leaves_dispose_of_ne hdc
  · rw [hdropped]
    exact (leaves_modify_of_ne hdc _).trans (leaves_release_of_ne hdc)

/-- A call that is released is disposed, and its outbox is closed. -/
lemma call?_release_self (x : Exchange) (c : CallId) :
    (x.release c).call? c = (x.call? c).map fun call =>
      { call.disposed with outbox := call.outbox.close } := by
  unfold release
  rw [call?_modify_self, call?_dispose, if_pos rfl, Option.map_map]
  rfl

namespace Spent

lemma of_leaves (h : x.Spent c) (hleaves : Leaves c x y) : y.Spent c := by
  intro call hcall
  rw [hleaves.1] at hcall
  exact h call hcall

lemma ne_of_runnable (h : x.Spent c) (hrunnable : x.runnable d = .ok plan) : d ≠ c := by
  rintro rfl
  obtain ⟨call, hcall, hhere, -⟩ := exists_of_runnable hrunnable
  rw [(h call hcall).1] at hhere
  cases hhere

lemma runnable (h : x.Spent c) : x.runnable c = .error .absent := by
  unfold Exchange.runnable
  cases hcall : x.call? c with
  | none => rfl
  | some call =>
    dsimp only
    rw [(h call hcall).1]

lemma dispose (h : x.Spent c) : (x.dispose c).2 = x := by
  cases hcall : x.call? c with
  | none => rw [dispose_of_unknown hcall]
  | some call => rw [dispose_of_isDisposed hcall (h call hcall).2]

lemma perform (h : x.Spent c) (deed : Deed) : (x.perform deed c).2 = x := by
  rcases perform_cases x deed c with hsame | hdisposed | ⟨call, hcall, hhere, -⟩
  · exact hsame
  · rw [hdisposed]
    exact h.dispose
  · rw [(h call hcall).1] at hhere
    cases hhere

end Spent

/-- Nothing more happens to a call that is spent, as long as the runs are those of other calls. -/
lemma isCarried_spent (c : CallId) :
    IsCarried EventKind.IsOrdinary (fun d => d ≠ c) fun x y => x.Spent c → Leaves c x y where
  same hcalls hjournal _ := leaves_of_same hcalls hjournal
  trans hxy hyz h := (hxy h).trans (hyz (h.of_leaves (hxy h)))
  note x entry hentry _ := leaves_note hentry
  tell x d notice hdc _ _ := leaves_tell_of_ne hdc notice
  start x d hdc _ := by
    unfold Exchange.start
    split
    · exact .refl c x
    · exact leaves_modify_of_ne hdc _
  change x d f hdc _ _ := leaves_modify_of_ne hdc f
  perform x deed d h := by
    by_cases hdc : d = c
    · subst hdc
      rw [h.perform deed]
      exact .refl d x
    · exact leaves_perform_of_ne hdc deed

namespace IsGone

lemma of_leaves (h : x.IsGone c) (hleaves : Leaves c x y) : y.IsGone c := by
  obtain ⟨call, hcall, hgone⟩ := h
  exact ⟨call, hleaves.1.trans hcall, hgone⟩

/-- A change that brings no call back. -/
lemma modify (h : x.IsGone c) {f : Call → Call}
    (hf : ∀ call, x.call? d = some call → call.presence = .gone → (f call).presence = .gone) :
    (x.modify d f).IsGone c := by
  by_cases hdc : d = c
  · subst hdc
    obtain ⟨call, hcall, hgone⟩ := h
    refine ⟨f call, ?_, hf call hcall hgone⟩
    exact call?_modify_of_known hcall _
  · exact h.of_leaves (leaves_modify_of_ne hdc f)

lemma dispose (h : x.IsGone c) (d : CallId) : (x.dispose d).2.IsGone c := by
  by_cases hdc : d = c
  · subst hdc
    obtain ⟨call, hcall, hgone⟩ := h
    refine ⟨call.disposed, ?_, hgone⟩
    rw [call?_dispose, if_pos rfl, hcall]
    rfl
  · exact h.of_leaves (leaves_dispose_of_ne hdc)

lemma release (h : x.IsGone c) (d : CallId) : (x.release d).IsGone c :=
  (h.dispose d).modify fun _ _ hgone => hgone

lemma ne_of_runnable (h : x.IsGone c) (hrunnable : x.runnable d = .ok plan) : d ≠ c := by
  rintro rfl
  obtain ⟨call, hcall, hgone⟩ := h
  obtain ⟨known, hknown, hhere, -⟩ := exists_of_runnable hrunnable
  rw [hcall] at hknown
  cases hknown
  rw [hgone] at hhere
  cases hhere

end IsGone

lemma isGone_setPresence (hrunnable : x.runnable c = .ok plan) : (x.setPresence c .gone).IsGone c := by
  obtain ⟨call, hcall, -⟩ := exists_of_runnable hrunnable
  refine ⟨{ call with presence := .gone }, ?_, rfl⟩
  exact call?_modify_of_known hcall _

/-- A call that is gone does not come back. -/
lemma isCarried_isGone (c : CallId) :
    IsCarried EventKind.IsOrdinary (fun _ => True) fun x y => x.IsGone c → y.IsGone c where
  same hcalls hjournal h := h.of_leaves (leaves_of_same hcalls hjournal)
  trans hxy hyz h := hyz (hxy h)
  note x entry hentry h := h.of_leaves (leaves_note hentry)
  tell x d notice _ _ h := by
    obtain ⟨call, hcall, hgone⟩ := h
    exact ⟨call, (call?_tell x d notice c).trans hcall, hgone⟩
  start x d _ h := by
    unfold Exchange.start
    split
    · exact h
    · exact h.modify fun _ _ hgone => hgone
  change x d f _ hf h := h.modify fun call hcall hgone => (hf call hcall).presence.trans hgone
  perform x deed d h := by
    rcases perform_cases x deed d with hsame | hdisposed | ⟨call, -, -, hdropped⟩
    · rw [hsame]
      exact h
    · rw [hdisposed]
      exact h.dispose d
    · have hgone : (x.setPresence d .gone).IsGone c := h.modify fun _ _ _ => rfl
      rw [hdropped]
      exact hgone.release d

lemma parted_dispose_self (x : Exchange) (c : CallId) : (x.dispose c).2.Parted c := by
  intro call hcall _
  rw [call?_dispose, if_pos rfl] at hcall
  obtain ⟨former, -, rfl⟩ := Option.map_eq_some_iff.mp hcall
  exact Handle.isDisposed_dispose former.handle

lemma parted_release_self (x : Exchange) (c : CallId) : (x.release c).Parted c := by
  intro call hcall _
  rw [call?_release_self] at hcall
  obtain ⟨former, -, rfl⟩ := Option.map_eq_some_iff.mp hcall
  exact Handle.isDisposed_dispose former.handle

namespace Parted

lemma of_leaves (h : x.Parted c) (hleaves : Leaves c x y) : y.Parted c := by
  intro call hcall
  rw [hleaves.1] at hcall
  exact h call hcall

/-- A change by which no call goes away. -/
lemma modify (h : x.Parted c) {f : Call → Call}
    (hf : ∀ call, x.call? d = some call → (f call).presence = .gone →
      call.presence = .gone ∧ (f call).handle.isDisposed = call.handle.isDisposed) :
    (x.modify d f).Parted c := by
  by_cases hdc : d = c
  · subst hdc
    intro call hcall hgone
    obtain ⟨former, hformer, rfl⟩ := call?_of_modify_self hcall
    obtain ⟨hwas, hsame⟩ := hf former hformer hgone
    rw [hsame]
    exact h former hformer hwas
  · exact h.of_leaves (leaves_modify_of_ne hdc f)

lemma setPresence (h : x.Parted c) (d : CallId) {presence : Presence} (hpresence : presence ≠ .gone) :
    (x.setPresence d presence).Parted c :=
  h.modify fun _ _ hgone => absurd hgone hpresence

/-- A call that is gone is spent. -/
lemma spent (h : x.Parted c) (hgone : x.IsGone c) : x.Spent c := by
  intro call hcall
  obtain ⟨known, hknown, haway⟩ := hgone
  rw [hcall] at hknown
  cases hknown
  exact ⟨haway, h call hcall haway⟩

end Parted

/-- Whoever drops a call disposes its handle. -/
lemma isCarried_parted (c : CallId) :
    IsCarried EventKind.IsOrdinary (fun _ => True) fun x y => x.Parted c → y.Parted c where
  same hcalls hjournal h := h.of_leaves (leaves_of_same hcalls hjournal)
  trans hxy hyz h := hyz (hxy h)
  note x entry hentry h := h.of_leaves (leaves_note hentry)
  tell x d notice _ _ h := by
    intro call hcall
    rw [call?_tell] at hcall
    exact h call hcall
  start x d _ h := by
    unfold Exchange.start
    split
    case h_1 => exact h
    case h_2 call hcall =>
      refine h.modify fun former hformer hgone => ⟨hgone, ?_⟩
      rw [hcall] at hformer
      cases hformer
      exact Handle.isDisposed_start _
  change x d f _ hf h := by
    refine h.modify fun call hcall hgone => ⟨(hf call hcall).presence.symm.trans hgone, ?_⟩
    rw [(hf call hcall).handle]
  perform x deed d h := by
    by_cases hdc : d = c
    · subst hdc
      rcases perform_cases x deed d with hsame | hdisposed | ⟨call, -, -, hdropped⟩
      · rw [hsame]
        exact h
      · rw [hdisposed]
        exact parted_dispose_self x d
      · rw [hdropped]
        exact parted_release_self _ d
    · exact h.of_leaves (leaves_perform_of_ne hdc deed)

namespace Accounted

lemma of_leaves (h : x.Accounted c feed) (hleaves : Leaves c x y) : y.Accounted c feed := by
  obtain ⟨hknown, hplaces⟩ := h
  obtain ⟨hcall, htold⟩ := hleaves
  unfold farewells at hknown
  constructor
  · unfold farewells
    rw [hcall, htold]
    exact hknown
  · rw [htold]
    exact hplaces

/-- A change that is no disposal. -/
lemma modify (h : x.Accounted c feed) {f : Call → Call}
    (hfeed : ∀ call, x.call? d = some call → (f call).feed = call.feed)
    (hhandle : ∀ call, x.call? d = some call →
      (f call).handle.signalled = call.handle.signalled ∧
        (f call).handle.isDisposed = call.handle.isDisposed) :
    (x.modify d f).Accounted c feed := by
  by_cases hdc : d = c
  · subst hdc
    obtain ⟨⟨call, hcall, rfl, hsignalled, hfarewells⟩, hplaces⟩ := h
    obtain ⟨hsame, hdisposed⟩ := hhandle call hcall
    refine ⟨⟨f call, ?_, hfeed call hcall, ?_, ?_⟩, hplaces⟩
    · exact call?_modify_of_known hcall _
    · rw [hsame, hdisposed]
      exact hsignalled
    · rw [hdisposed]
      exact hfarewells
  · exact h.of_leaves (leaves_modify_of_ne hdc f)

/-- A call tells of something else than its disposal. -/
lemma tell (h : x.Accounted c feed) {notice : Notice} (hkind : notice.kind ≠ .handleDisposed) :
    (x.tell d notice).Accounted c feed := by
  by_cases hdc : d = c
  · subst hdc
    obtain ⟨⟨call, hcall, hfeed, hsignalled, hfarewells⟩, hplaces⟩ := h
    obtain ⟨place, hplace, htold⟩ := told_tell_self hcall notice
    refine ⟨⟨call, ?_, hfeed, hsignalled, ?_⟩, ?_⟩
    · rw [call?_tell]
      exact hcall
    · unfold farewells at hfarewells ⊢
      rw [htold, List.countP_append, hfarewells]
      simp [hkind]
    · intro other hother
      rw [htold] at hother
      rcases List.mem_append.mp hother with hother | hother
      · exact hplaces other hother
      · obtain rfl := List.mem_singleton.mp hother
        exact hplace.trans hfeed
  · exact h.of_leaves (leaves_tell_of_ne hdc notice)

/-- The first disposal of a handle is told of. -/
lemma dispose (h : x.Accounted c feed) (d : CallId) : (x.dispose d).2.Accounted c feed := by
  by_cases hdc : d = c
  · subst hdc
    obtain ⟨⟨call, hcall, hfeed, hsignalled, hfarewells⟩, hplaces⟩ := h
    cases hdisposed : call.handle.isDisposed with
    | true =>
      rw [dispose_of_isDisposed hcall hdisposed]
      exact ⟨⟨call, hcall, hfeed, hsignalled, hfarewells⟩, hplaces⟩
    | false =>
      obtain ⟨place, hplace, htold⟩ := told_dispose_of_live hcall hdisposed
      rw [hdisposed] at hfarewells
      refine ⟨⟨call.disposed, ?_, hfeed, ?_, ?_⟩, ?_⟩
      · rw [call?_dispose, if_pos rfl, hcall]
        rfl
      · unfold Call.disposed
        rw [Handle.signalled_dispose hdisposed, Handle.isDisposed_dispose]
      · unfold farewells at hfarewells ⊢
        unfold Call.disposed
        rw [htold, List.countP_append, hfarewells, Handle.isDisposed_dispose]
        rfl
      · intro other hother
        rw [htold] at hother
        rcases List.mem_append.mp hother with hother | hother
        · exact hplaces other hother
        · obtain rfl := List.mem_singleton.mp hother
          exact hplace.trans hfeed
  · exact h.of_leaves (leaves_dispose_of_ne hdc)

lemma setPresence (h : x.Accounted c feed) (d : CallId) (presence : Presence) :
    (x.setPresence d presence).Accounted c feed :=
  h.modify (fun _ _ => rfl) fun _ _ => ⟨rfl, rfl⟩

lemma release (h : x.Accounted c feed) (d : CallId) : (x.release d).Accounted c feed :=
  (h.dispose d).modify (fun _ _ => rfl) fun _ _ => ⟨rfl, rfl⟩

end Accounted

lemma isCarried_accounted (c : CallId) (feed : Option FeedId) :
    IsCarried EventKind.IsOrdinary (fun _ => True)
      fun x y => x.Accounted c feed → y.Accounted c feed where
  same hcalls hjournal h := h.of_leaves (leaves_of_same hcalls hjournal)
  trans hxy hyz h := hyz (hxy h)
  note x entry hentry h := h.of_leaves (leaves_note hentry)
  tell x d notice _ hkind h := h.tell hkind.2
  start x d _ h := by
    unfold Exchange.start
    split
    case h_1 => exact h
    case h_2 call hcall =>
      refine h.modify (fun _ _ => rfl) fun former hformer => ?_
      rw [hcall] at hformer
      cases hformer
      exact ⟨Handle.signalled_start _, Handle.isDisposed_start _⟩
  change x d f _ hf h := by
    apply h.modify
    · intro call hcall
      exact (hf call hcall).feed
    · intro call hcall
      rw [(hf call hcall).handle]
      exact ⟨rfl, rfl⟩
  perform x deed d h := by
    rcases perform_cases x deed d with hsame | hdisposed | ⟨call, -, -, hdropped⟩
    · rw [hsame]
      exact h
    · rw [hdisposed]
      exact h.dispose d
    · rw [hdropped]
      exact (h.setPresence d .gone).release d

/-- How often call `c` has told on a feed that its handle was disposed. -/
def farewellsOn (x : Exchange) (c : CallId) (feed : FeedId) : Nat :=
  (x.told c).countP fun notice =>
    notice.1.kind = .handleDisposed ∧ notice.2.map Prod.fst = some feed

/-- Nobody holds call `c` any more. Its handle is disposed and the signal is given, which it has
told of once, on its feed if it has one. -/
structure Released (c : CallId) (feed : Option FeedId) (x : Exchange) : Prop where
  call : ∃ call, x.call? c = some call ∧ call.feed = feed ∧ call.presence = .gone ∧
    call.handle = ⟨.disposed, true⟩
  farewells : x.farewells c = 1
  published : ∀ i, x.farewellsOn c i = if feed = some i then 1 else 0

/-- A call that is gone and disposed is released. -/
lemma Accounted.released (h : x.Accounted c feed) (hspent : x.Spent c) : x.Released c feed := by
  obtain ⟨⟨call, hcall, hfeed, hsignalled, hfarewells⟩, hplaces⟩ := h
  obtain ⟨hgone, hdisposed⟩ := hspent call hcall
  rw [hdisposed] at hsignalled hfarewells
  have hstate : call.handle.state = .disposed := of_decide_eq_true hdisposed
  refine ⟨⟨call, hcall, hfeed, hgone, ?_⟩, hfarewells, fun i => ?_⟩
  · rw [← hstate, ← hsignalled]
  · by_cases hi : feed = some i
    · rw [if_pos hi]
      refine Eq.trans (List.countP_congr fun notice hnotice => ?_) hfarewells
      simp [hplaces notice hnotice, hi]
    · rw [if_neg hi]
      apply List.countP_eq_zero.mpr
      intro notice hnotice
      simp [hplaces notice hnotice, hi]

/-- A telling in which call `c` says on `feed` that its handle was disposed. -/
def IsFarewell (c : CallId) (feed : FeedId) (t : Telling) : Bool :=
  t.call = c ∧ t.notice.kind = .handleDisposed ∧ t.place.map Prod.fst = some feed

/-- When `feed` was like `f`, another reader came to it. On the way from `x` to `y` call `c` says
once on it that its handle was disposed, and the feed takes in this and all else that is published
on it, unless the reader leaves. -/
def PartsOn (c : CallId) (feed : FeedId) (f : Feed Event) (x y : Exchange) : Prop :=
  ∃ new, y.tellings = x.tellings ++ new ∧ new.countP (IsFarewell c feed) = 1 ∧
    let due := publishedOn feed (new.filterMap Telling.published?)
    ∃ g, y.feeds[feed]? = some g ∧ (g.readers[f.readers.length]? = some none ∨
      g.sent = f.sent + due.length ∧ g.kept <:+ f.kept ++ due)

lemma told_eq_filterMap (x : Exchange) (c : CallId) : x.told c =
    x.tellings.filterMap fun t => if t.call = c then some (t.notice, t.place) else none := by
  unfold told tellings
  rw [← List.filterMap_reverse, List.filterMap_filterMap]
  refine List.filterMap_congr fun entry _ => ?_
  cases entry <;> rfl

lemma farewellsOn_eq_countP (x : Exchange) (c : CallId) (i : FeedId) :
    x.farewellsOn c i = x.tellings.countP (IsFarewell c i) := by
  unfold farewellsOn
  rw [told_eq_filterMap, List.countP_filterMap]
  refine List.countP_congr fun t _ => ?_
  by_cases ht : t.call = c <;> simp [IsFarewell, ht]

lemma farewellsOn_le (x : Exchange) (c : CallId) (i : FeedId) : x.farewellsOn c i ≤ x.farewells c :=
  List.countP_mono_left fun _ _ h => decide_eq_true (of_decide_eq_true h).1

/-- What is published is what is told of on feeds. -/
lemma Draws.eq_filterMap {news : List (FeedId × Event)} {new : List Telling} (h : x.Draws news y)
    (hnew : y.tellings = x.tellings ++ new) : news = new.filterMap Telling.published? := by
  have hpublished := h.published
  unfold Exchange.published at hpublished
  rw [hnew, List.filterMap_append] at hpublished
  exact (List.append_cancel_left hpublished).symm

/-- A reader that comes before the handle is disposed is there for what the call tells then. -/
theorem Released.partsOn {i : FeedId} {f : Feed Event} {receipts : List Receipt}
    (h : y.Released c (some i)) (hlive : x.farewells c = 0) (hf : x.feeds[i]? = some f)
    (hchronicle : Chronicle { x with feeds := x.feeds.modify i Feed.subscribe } receipts y) :
    PartsOn c i f x y := by
  obtain ⟨-, new, hnew, -⟩ := Signs.chronicle hchronicle
  have hcame := getElem?_modify_feed hf i Feed.subscribe
  rw [if_pos rfl] at hcame
  obtain ⟨news, hnews, g, hg, hserves⟩ := hchronicle.goesOn hcame (.subscribe_self f)
  obtain rfl := hnews.eq_filterMap hnew
  refine ⟨new, hnew, ?_, g, hg, hserves.stays.imp_right fun hsince => ⟨hsince.sent, hsince.kept⟩⟩
  have hbefore : x.tellings.countP (IsFarewell c i) = 0 := by
    rw [← farewellsOn_eq_countP]
    exact Nat.le_zero.mp (hlive ▸ farewellsOn_le x c i)
  have hafter := h.published i
  rw [if_pos rfl, farewellsOn_eq_countP, hnew, List.countP_append] at hafter
  exact (Nat.zero_add _).symm.trans (hbefore ▸ hafter)

/-- What any operation does between runs is right for call `c`. -/
structure Guards (c : CallId) (x y : Exchange) : Prop where
  ready : y.Ready
  accounted : ∀ feed, x.Accounted c feed → y.Accounted c feed
  parted : x.Parted c → y.Parted c
  spent : x.Spent c → Leaves c x y

lemma guards_of_same (hx : x.Ready) (hcalls : y.calls = x.calls) (hjournal : y.journal = x.journal) :
    Guards c x y where
  ready := hx.of_calls hcalls
  accounted _ h := h.of_leaves (leaves_of_same hcalls hjournal)
  parted h := h.of_leaves (leaves_of_same hcalls hjournal)
  spent _ := leaves_of_same hcalls hjournal

namespace Guards

variable {z : Exchange}

lemma trans (hxy : Guards c x y) (hyz : Guards c y z) : Guards c x z where
  ready := hyz.ready
  accounted feed h := hyz.accounted feed (hxy.accounted feed h)
  parted h := hyz.parted (hxy.parted h)
  spent h := (hxy.spent h).trans (hyz.spent (h.of_leaves (hxy.spent h)))

/-- A call that is gone does not come back. -/
lemma isGone (h : Guards c x y) (hparted : x.Parted c) (hgone : x.IsGone c) : y.IsGone c :=
  hgone.of_leaves (h.spent (hparted.spent hgone))

lemma released (h : Guards c x y) (haccounted : x.Accounted c feed) (hparted : x.Parted c)
    (hgone : y.IsGone c) : y.Released c feed :=
  (h.accounted feed haccounted).released ((h.parted hparted).spent hgone)

end Guards

lemma guards_perform (hx : x.Ready) (c : CallId) (deed : Deed) (d : CallId) :
    Guards c x (x.perform deed d).2 where
  ready := hx.perform deed d
  accounted feed := (isCarried_accounted c feed).perform x deed d
  parted := (isCarried_parted c).perform x deed d
  spent := (isCarried_spent c).perform x deed d

section Runs

variable (hx : x.Ready) (hrunnable : x.runnable d = .ok plan)
include hx hrunnable

lemma accounted_opening {manner : Manner} {t : Scene} (h : x.Accounted c feed)
    (hreaches : Reaches Scene.step (x.opening manner d plan) t) : t.exchange.Accounted c feed :=
  hx.opening_carried (isCarried_accounted c feed) (Q := fun _ => True)
    (fun _ e presence _ _ h => h.setPresence e presence) (fun _ _ _ _ _ => ⟨trivial, trivial⟩)
    hrunnable (fun h => h.setPresence d _) hreaches h

/-- During the runs of other calls, and during its own blocking runs, a call does not go away
without a disposal. -/
lemma parted_opening {manner : Manner} {t : Scene} (h : x.Parted c)
    (hother : manner = .asynchronous → d ≠ c)
    (hreaches : Reaches Scene.step (x.opening manner d plan) t) : t.exchange.Parted c := by
  refine hx.opening_carried (isCarried_parted c) (Q := fun _ => True)
    (fun _ e _ _ hpresence h => h.setPresence e hpresence) (fun _ _ _ _ _ => ⟨trivial, trivial⟩)
    hrunnable ?_ hreaches h
  intro h
  cases manner with
  | blocking => exact h.setPresence d nofun
  | asynchronous => exact h.of_leaves (leaves_modify_of_ne (hother rfl) _)

lemma leaves_opening {manner : Manner} {t : Scene} (h : x.Spent c)
    (hreaches : Reaches Scene.step (x.opening manner d plan) t) : Leaves c x t.exchange :=
  hx.opening_carried (isCarried_spent c) (fun _ _ _ hec _ _ => leaves_modify_of_ne hec _)
    (fun _ _ _ hleaves hrunnable =>
      have hne := (h.of_leaves (hleaves h)).ne_of_runnable hrunnable
      ⟨hne, hne⟩)
    hrunnable (fun h => leaves_modify_of_ne (h.ne_of_runnable hrunnable) _) hreaches h

/-- A call stays gone while it is run asynchronously. -/
lemma isGone_runAsync : (x.runAsync d).2.IsGone d := by
  obtain ⟨how, y, hran, hleads⟩ := leadsTo_runAsync hrunnable
  have hgone : (x.opening .asynchronous d plan).exchange.IsGone d := isGone_setPresence hrunnable
  -- It cannot be run from within, so no nested run brings it back when it ends.
  have hcarried := (hx.opening hrunnable .asynchronous).carried (isCarried_isGone d)
    (Q := fun e => e ≠ d)
    (fun _ _ _ hed _ h => h.of_leaves (leaves_modify_of_ne hed _)) (fun _ _ => trivial)
    (fun _ hnone => absurd hnone List.not_mem_nil)
    (fun y e _ hy hrunnable => ⟨trivial, (hy hgone).ne_of_runnable hrunnable⟩) hleads.reaches
  rw [hran]
  exact (hcarried.1 hgone).release d

/-- Inside a run, a call that is gone and not at work is released, and stays as it is. -/
lemma released_within {manner : Manner} {t : Scene} (haccounted : x.Accounted c feed)
    (hparted : x.Parted c) (hreaches : Reaches Scene.step (x.opening manner d plan) t)
    (hidle : c ∉ t.workers) (hgone : t.exchange.IsGone c) :
    t.exchange.Released c feed ∧ ∀ u, Reaches Scene.step t u → Leaves c t.exchange u.exchange := by
  -- The outermost run is at work all the time, so it is one of another call.
  have hother : d ≠ c := by
    rintro rfl
    apply hidle
    exact List.mem_of_getLast? (Scene.getLast?_workers hreaches)
  have hworkers : ∀ e ∈ t.workers, e ≠ c := fun e he hec => hidle (hec ▸ he)
  have hspent := (parted_opening hx hrunnable hparted (fun _ => hother) hreaches).spent hgone
  refine ⟨(accounted_opening hx hrunnable haccounted hreaches).released hspent, fun u hu => ?_⟩
  have hcarried := ((hx.opening hrunnable manner).reaches hreaches).carried (isCarried_spent c)
    (fun _ _ _ hec _ _ => leaves_modify_of_ne hec _) hworkers
    (fun e he => hworkers e (List.dropLast_subset _ he))
    (fun y e _ hy hrunnable =>
      have hne := (hspent.of_leaves (hy hspent)).ne_of_runnable hrunnable
      ⟨hne, hne⟩) hu
  exact hcarried.1 hspent

end Runs

/-- Whatever is tried with a call that is gone is in vain. -/
lemma Parted.in_vain (h : x.Parted c) (hgone : x.IsGone c) : x.dispose c = (some false, x) ∧
    x.start c = (false, x) ∧ x.run c = (.absent, x) ∧ x.runAsync c = (.absent, x) := by
  have hspent := h.spent hgone
  obtain ⟨known, hknown, -⟩ := hgone
  obtain ⟨-, hdisposed⟩ := hspent known hknown
  refine ⟨dispose_of_isDisposed hknown hdisposed, ?_, run_of_error hspent.runnable,
    runAsync_of_error hspent.runnable⟩
  apply start_of_begun hknown
  intro hidle
  have hstate : known.handle.state = .disposed := of_decide_eq_true hdisposed
  rw [hidle] at hstate
  cases hstate

lemma guards_run (hx : x.Ready) (c d : CallId) : Guards c x (x.run d).2 := by
  cases hrunnable : x.runnable d with
  | error reply =>
    rw [run_of_error hrunnable]
    exact guards_of_same hx rfl rfl
  | ok plan =>
    have hready := hx.run d
    obtain ⟨how, y, hran, hleads⟩ := leadsTo_run hrunnable
    rw [hran] at hready ⊢
    have hmanner : Manner.blocking = .asynchronous → d ≠ c := nofun
    refine ⟨hready, fun feed h => ?_, fun h => ?_, fun h => ?_⟩
    · exact (accounted_opening hx hrunnable h hleads.reaches).setPresence d .here
    · exact (parted_opening hx hrunnable h hmanner hleads.reaches).setPresence d nofun
    · exact (leaves_opening hx hrunnable h hleads.reaches).trans
        (leaves_modify_of_ne (h.ne_of_runnable hrunnable) _)

lemma guards_runAsync (hx : x.Ready) (c d : CallId) : Guards c x (x.runAsync d).2 := by
  cases hrunnable : x.runnable d with
  | error reply =>
    rw [runAsync_of_error hrunnable]
    exact guards_of_same hx rfl rfl
  | ok plan =>
    have hready := hx.runAsync d
    obtain ⟨how, y, hran, hleads⟩ := leadsTo_runAsync hrunnable
    rw [hran] at hready ⊢
    refine ⟨hready, fun feed h => ?_, fun h => ?_, fun h => ?_⟩
    · exact (accounted_opening hx hrunnable h hleads.reaches).release d
    · by_cases hdc : d = c
      · subst hdc
        exact parted_release_self y d
      · exact (parted_opening hx hrunnable h (fun _ => hdc) hleads.reaches).of_leaves
          (leaves_release_of_ne hdc)
    · exact (leaves_opening hx hrunnable h hleads.reaches).trans
        (leaves_release_of_ne (h.ne_of_runnable hrunnable))

/-- Each operation of a session is right for call `c`. -/
lemma isKept_guards (c : CallId) : IsKept fun x y => x.Ready → Guards c x y where
  same hcalls hjournal h := guards_of_same h hcalls hjournal
  trans hxy hyz h := (hxy h).trans (hyz (hxy h).ready)
  perform _ deed d h := guards_perform h c deed d
  run _ d h := guards_run h c d
  runAsync _ d h := guards_runAsync h c d

section Once

/-- A call that is new has done nothing so far. -/
lemma accounted_of_fresh {call : Call} (hcall : x.call? c = some call) (hfresh : call.handle = .fresh)
    (htold : x.told c = []) : x.Accounted c call.feed := by
  refine ⟨⟨call, hcall, rfl, ?_, ?_⟩, ?_⟩
  · rw [hfresh]
    rfl
  · unfold farewells
    rw [htold, hfresh]
    rfl
  · rw [htold]
    exact fun _ hnone => absurd hnone List.not_mem_nil

lemma call?_of_present? {call : Call} (h : x.present? c = some call) :
    x.call? c = some call ∧ call.presence = .here := by
  unfold present? at h
  split at h
  case h_1 known hknown =>
    obtain ⟨hhere, hsame⟩ := Option.ite_none_right_eq_some.mp h
    cases hsame
    exact ⟨hknown, hhere⟩
  case h_2 => cases h

lemma runnable_of_present? {call : Call} (h : x.present? c = some call) :
    x.runnable c = .ok call.plan := by
  obtain ⟨hcall, hhere⟩ := call?_of_present? h
  unfold runnable
  rw [hcall]
  dsimp only
  rw [hhere]

/-- A disposal does not keep a call from being run. -/
lemma runnable_dispose (x : Exchange) (d c : CallId) :
    (x.dispose d).2.runnable c = x.runnable c := by
  unfold runnable
  rw [call?_dispose]
  by_cases hdc : d = c
  · rw [if_pos hdc]
    cases x.call? c with
    | none => rfl
    | some call => rfl
  · rw [if_neg hdc]

lemma isGone_drop {call : Call} (hpresent : x.present? c = some call) : (x.drop c).2.IsGone c := by
  have hgone := isGone_setPresence (runnable_of_present? hpresent)
  unfold drop
  rw [hpresent]
  exact hgone.release c

/-- After a blocking run a call is there again, also if user code has panicked. -/
lemma exists_present?_run (hrunnable : x.runnable c = .ok plan) (hx : x.Ready) :
    ∃ call, (x.run c).2.present? c = some call := by
  obtain ⟨how, y, hran, hleads⟩ := leadsTo_run hrunnable
  have hover := (hx.opening hrunnable .blocking).reaches hleads.reaches
  obtain ⟨call, hcall, -⟩ := hover.attended.away c List.mem_cons_self
  refine ⟨{ call with presence := .here }, ?_⟩
  have hback : (y.setPresence c .here).call? c = some { call with presence := .here } := by
    have hcall : y.call? c = some call := hcall
    exact call?_modify_of_known hcall _
  rw [hran]
  unfold present?
  rw [hback]
  rfl

/-- A call that is built, run and dropped in one go is released then, however the run ends. -/
theorem released_callOnce (hx : x.Ready) (htold : x.told x.calls.length = []) (plan : Plan) :
    ∃ new, (x.addPlan plan false).call? x.calls.length = some new ∧
      (x.callOnce plan).2.Released x.calls.length new.feed := by
  have hnew := call?_addPlan x plan false
  have hready := hx.addPlan plan false
  have hrunnable : (x.addPlan plan false).runnable x.calls.length = .ok plan := by
    unfold runnable
    rw [hnew]
    rfl
  have haccounted := accounted_of_fresh hnew rfl
    ((told_congr (journal_addPlan x plan false) _).trans htold)
  have hparted : (x.addPlan plan false).Parted x.calls.length := by
    intro call hcall hgone
    rw [hnew] at hcall
    cases hcall
    cases hgone
  have hran := guards_run hready x.calls.length x.calls.length
  obtain ⟨call, hpresent⟩ := exists_present?_run hrunnable hready
  have hdropped := hran.trans (guards_perform hran.ready x.calls.length .drop x.calls.length)
  exact ⟨_, hnew, hdropped.released haccounted hparted (isGone_drop hpresent)⟩

/-- A reader of a shared feed does not miss the end of a call that is built, run and dropped. -/
lemma partsOn_callOnce {i : FeedId} {f : Feed Event} (hx : x.Ready)
    (htold : x.told x.calls.length = []) (hshared : plan.feed = .shared i)
    (hf : x.feeds[i]? = some f) : PartsOn x.calls.length i f x
      (callOnce { x with feeds := x.feeds.modify i Feed.subscribe } plan).2 := by
  let came : Exchange := { x with feeds := x.feeds.modify i Feed.subscribe }
  obtain ⟨new, hnew, hreleased⟩ := released_callOnce (x := came) (hx.of_calls rfl) htold plan
  have hfeed : new.feed = some i := by
    have hplanned := call?_addPlan came plan false
    rw [feedFor, hshared] at hplanned
    cases hnew.symm.trans hplanned
    rfl
  rw [hfeed] at hreleased
  refine hreleased.partsOn ?_ hf (.callOnce came plan)
  unfold farewells
  rw [htold]
  rfl

end Once

/-- Each disposal that makes the difference is told of once. -/
theorem farewells_dispose (x : Exchange) (c : CallId) :
    (x.dispose c).2.farewells c = x.farewells c + if (x.dispose c).1 = some true then 1 else 0 := by
  cases hcall : x.call? c with
  | none => rw [dispose_of_unknown hcall, if_neg nofun, Nat.add_zero]
  | some call =>
    cases hdisposed : call.handle.isDisposed with
    | true => rw [dispose_of_isDisposed hcall hdisposed, if_neg (by simp), Nat.add_zero]
    | false =>
      obtain ⟨place, -, htold⟩ := told_dispose_of_live hcall hdisposed
      rw [dispose_of_live hcall hdisposed, if_pos rfl, ← dispose_of_live hcall hdisposed]
      unfold farewells
      rw [htold, List.countP_append]
      rfl

end Exchange

namespace SharedHandle

variable {s t : SharedHandle} {w : Nat}

/-- A start by the run itself, which is no use of another thread. -/
lemma Decided.start (hs : s.Decided) : Decided { s with handle := s.handle.start.2 } := by
  rcases hs with huntouched | ⟨w, hwon⟩
  · refine Or.inl ⟨?_, ?_, huntouched.uses, huntouched.signals, huntouched.announcements⟩
    · intro hdisposed
      apply huntouched.live
      exact of_decide_eq_true (s.handle.isDisposed_start.symm.trans (decide_eq_true hdisposed))
    · exact (Handle.signalled_start s.handle).trans huntouched.unsignalled
  · have hstart : s.handle.start.2 = s.handle := by
      unfold Handle.start
      rw [if_neg (by simp [hwon.disposed])]
    rw [hstart]
    exact Or.inr ⟨w, hwon⟩

/-- A winner that owes nothing any more is through. -/
lemma WonBy.through (hs : s.WonBy w) (huse : s.uses[w]? = some (.disposed true)) :
    s.handle = ⟨.disposed, true⟩ ∧ s.signals = [w] ∧ s.announcements = [w] ∧
      ∀ i : Nat, s.uses[i]? = some (.disposed true) ↔ i = w := by
  have hthrough : s.handle.signalled = true ∧ s.signals = [w] ∧ s.announcements = [w] := by
    rcases hs.winner with ⟨hnow, -⟩ | ⟨hnow, -⟩ | ⟨-, hpaid⟩
    · rw [huse] at hnow
      cases hnow
    · rw [huse] at hnow
      cases hnow
    · exact hpaid
  obtain ⟨hsignalled, hsignals, hannouncements⟩ := hthrough
  refine ⟨?_, hsignals, hannouncements, fun i => ⟨fun hi => ?_, ?_⟩⟩
  · rw [← hs.disposed, ← hsignalled]
  · by_cases hiw : i = w
    · exact hiw
    · exact absurd rfl (hs.others i _ hi hiw)
  · rintro rfl
    exact huse

lemma WonBy.through_steps (hs : s.WonBy w) (huse : s.uses[w]? = some (.disposed true)) {i : Nat}
    (h : s.Steps i t) : t.WonBy w ∧ t.uses[w]? = some (.disposed true) := by
  refine ⟨hs.steps h, ?_⟩
  by_cases hiw : i = w
  · subst hiw
    have hnone : s.step i = none := step_eq_none huse rfl rfl
    rw [step_of_steps h] at hnone
    cases hnone
  · obtain ⟨use, next, -, -, huses⟩ := h.exists_use
    rw [huses, List.getElem?_set_ne hiw]
    exact huse

/-- From then on nothing happens to the handle, and nobody else will be told to have been first. -/
lemma WonBy.through_follow (hs : s.WonBy w) (huse : s.uses[w]? = some (.disposed true))
    (later : List Nat) : (s.follow later).WonBy w ∧ (s.follow later).uses[w]? = some (.disposed true) :=
  follow_induction (P := fun t => t.WonBy w ∧ t.uses[w]? = some (.disposed true))
    (fun _ _ _ ht h => WonBy.through_steps ht.1 ht.2 h) ⟨hs, huse⟩ later

end SharedHandle

namespace Race

variable {r s : Race} {stride : Stride}

lemma decided_step (hr : r.around.shared.Decided) (h : r.step stride = some s) :
    s.around.shared.Decided := by
  rcases step_cases h with ⟨thread, shared, -, hshared, rfl⟩ | ⟨-, hmeet⟩
  · exact hr.steps (SharedHandle.steps_of_step hshared)
  · by_cases hstart : ∃ won, stride = .started won
    · obtain ⟨won, rfl⟩ := hstart
      rw [(Surroundings.start_of_meet hmeet).2]
      exact hr.start
    · rw [Surroundings.shared_of_meet hmeet fun won hwon => hstart ⟨won, hwon⟩]
      exact hr

lemma decided_follow {strides : List Stride} (hr : r.around.shared.Decided)
    (h : r.follow strides = some s) : s.around.shared.Decided := by
  induction strides generalizing r with
  | nil =>
    cases h
    exact hr
  | cons stride strides ih =>
    obtain ⟨t, hstep, hrest⟩ := follow_cons_eq_some h
    exact ih (decided_step hr hstep) hrest

/-- When somebody has disposed the handle of a run and nobody is in the middle of it, one thread has
won, and that is how it stays. -/
theorem released_of_follow {plan : Plan} {manner : Manner} {requests : List HandleRequest}
    {strides : List Stride} (h : (Race.begin plan manner (.opened requests)).follow strides = some s)
    {i : Nat} {first : Bool} (huse : s.around.shared.uses[i]? = some (.disposed first))
    (hquiet : s.around.shared.anyDisposing = false) : ∃ w, ∀ later,
      let t := s.around.shared.follow later
      t.handle = ⟨.disposed, true⟩ ∧ t.signals = [w] ∧ t.announcements = [w] ∧
        (∀ j : Nat, t.uses[j]? = some (.disposed true) ↔ j = w) ∧
        ∀ j : Nat, t.uses[j]? = some (.started true) →
          s.around.shared.uses[j]? = some (.started true) := by
  have hdecided := decided_follow (Or.inl (SharedHandle.untouched_opened requests)) h
  rcases hdecided with huntouched | ⟨w, hwon⟩
  · cases huntouched.uses i _ huse
  · refine ⟨w, fun later => ?_⟩
    obtain ⟨hstill, hthrough⟩ := hwon.through_follow (hwon.paid hquiet).1 later
    obtain ⟨hhandle, hsignals, hannouncements, honly⟩ := hstill.through hthrough
    refine ⟨hhandle, hsignals, hannouncements, honly, fun j => ?_⟩
    exact SharedHandle.started_of_follow (by simp [hwon.disposed]) later

end Race

/-- The call that a command uses up, if it is there. -/
def Command.usesUp : Command → Option CallId
  | .runAsync c | .spawn c _ | .runUnstaffed c | .drop c => some c
  | _ => none

namespace Session

open Exchange

variable {x : Exchange} {c : CallId} {plan : Plan} {call : Call}

lemma isGone_runTimed (hx : x.Ready) (hrunnable : x.runnable c = .ok plan) :
    (runTimed c x).2.IsGone c :=
  isGone_runAsync (hx.of_calls rfl) hrunnable

lemma isGone_spawn (hx : x.Ready) (hrunnable : x.runnable c = .ok plan) (disposeAfter : Option Nat) :
    (spawn c disposeAfter x).2.IsGone c := by
  have hcarried := isCarried_isGone c
  unfold spawn
  split
  · exact isGone_runTimed hx hrunnable
  · exact isGone_runTimed (hx.perform .dispose c) ((runnable_dispose x c c).trans hrunnable)
  · dsimp only
    have hgone (alarm : Option Alarm) : (runTimed c { x with alarm }).2.IsGone c :=
      isGone_runTimed (hx.of_calls rfl) hrunnable
    split
    · exact hcarried.ring _ _ (hgone _)
    · exact hgone _

lemma onCall_of_present? {s : Session} (hpresent : s.exchange.present? c = some call)
    (f : Call → Answer × Session) : s.onCall c f = f call := by
  unfold onCall
  rw [hpresent]

/-- A command that uses up a call that is there leaves it gone. -/
lemma isGone_step {s : Session} (hready : s.exchange.Ready) (hparted : s.exchange.Parted c)
    (hpresent : s.exchange.present? c = some call) {command : Command}
    (huses : command.usesUp = some c) : (s.step command).2.exchange.IsGone c := by
  have hrunnable := runnable_of_present? hpresent
  have hgone : (s.execute command).2.exchange.IsGone c := by
    cases command with
    | runAsync d =>
      cases huses
      rw [execute, onCall_of_present? hpresent]
      exact isGone_runTimed hready hrunnable
    | spawn d disposeAfter =>
      cases huses
      rw [execute, onCall_of_present? hpresent]
      exact isGone_spawn hready hrunnable disposeAfter
    | runUnstaffed d =>
      cases huses
      rw [execute, onCall_of_present? hpresent]
      have hunstaffed : { s.exchange with staffed := false }.Ready := hready.of_calls rfl
      exact isGone_runAsync hunstaffed hrunnable
    | drop d =>
      cases huses
      have hdropped : (s.update (·.drop c)).2.exchange.IsGone c := isGone_drop hpresent
      rw [execute]
      split
      case h_1 hdrop =>
        rw [hdrop] at hdropped
        exact hdropped
      case h_2 hdrop =>
        rw [hdrop] at hdropped
        exact hdropped
    | run | runWatched | close | dispose | isSignalled | info | debug | subscribe | unsubscribe =>
      cases huses
  have hexecuted := kept_execute (isKept_guards c) s command hready
  exact (kept_collect (isKept_guards c) _ hexecuted.ready).isGone (hexecuted.parted hparted) hgone

section Opened

variable (capacities : List Nat) (drafts : List Draft) (usual : Delivery.Settings)
  (draws : Nat → Nat → Nat) (quiet : Bool)

lemma accounted_openWith
    (hcall : (openWith capacities drafts usual draws quiet).2.exchange.call? c = some call) :
    (openWith capacities drafts usual draws quiet).2.exchange.Accounted c call.feed := by
  obtain ⟨hjournal, hnew⟩ := opened_openWith capacities drafts usual draws quiet
  have hfresh := hnew (fun call => call.handle = .fresh) (fun _ _ _ => rfl) c call hcall
  refine accounted_of_fresh hcall hfresh ?_
  unfold told
  rw [hjournal]
  rfl

lemma parted_openWith (c : CallId) :
    (openWith capacities drafts usual draws quiet).2.exchange.Parted c := by
  intro call hcall hgone
  have hhere := (opened_openWith capacities drafts usual draws quiet).2
    (fun call => call.presence = .here) (fun _ _ _ => rfl) c call hcall
  rw [hhere] at hgone
  cases hgone

/-- A number that no call has got yet has told of nothing. -/
lemma told_of_unknown {first : List Command}
    (hcall : ((openWith capacities drafts usual draws quiet).2.steps first).2.exchange.call? c = none) :
    ((openWith capacities drafts usual draws quiet).2.steps first).2.exchange.told c = [] := by
  have hready := ready_openWith capacities drafts usual draws quiet
  have hguards := kept_steps (isKept_guards c) _ first hready
  cases hopened : (openWith capacities drafts usual draws quiet).2.exchange.call? c with
  | some call =>
    obtain ⟨⟨after, hafter, -⟩, -⟩ :=
      hguards.accounted _ (accounted_openWith capacities drafts usual draws quiet hopened)
    rw [hcall] at hafter
    cases hafter
  | none =>
    have hspent : (openWith capacities drafts usual draws quiet).2.exchange.Spent c := by
      intro call hknown
      rw [hopened] at hknown
      cases hknown
    rw [(hguards.spent hspent).2]
    unfold told
    rw [(opened_openWith capacities drafts usual draws quiet).1]
    rfl

/-- However the use of a call comes to its end, it is released then. At any time its signal is given
if and only if its handle is disposed, which it has told of once then, and not before; each disposal
that makes the difference is told of. Once the call is gone, it is released: a further disposal
makes no difference, it cannot be started or run any more, and no command changes it or makes it
tell of anything. The commands that use it up leave it released. A reader that comes to the feed of
the call before the handle is disposed does not miss it: the feed takes in what the call tells then,
once. The same holds inside runs of any calls at every step, however user code disposes and drops
calls there, as long as the call is not itself at work, and it holds for a call that is built, run
and dropped in one go. Beside other threads that dispose the handle, when none of them is in the
middle of it, exactly one disposal made the difference and announced it; nothing happens to the
handle from then on. -/
theorem call_is_released
    (hcall : (openWith capacities drafts usual draws quiet).2.exchange.call? c = some call)
    (first later : List Command) :
    let s := ((openWith capacities drafts usual draws quiet).2.steps first).2
    let x := s.exchange
    x.Accounted c call.feed ∧
    (∀ y : Exchange, (y.dispose c).2.farewells c =
      y.farewells c + if (y.dispose c).1 = some true then 1 else 0) ∧
    (x.IsGone c → x.Released c call.feed ∧ x.dispose c = (some false, x) ∧
      x.start c = (false, x) ∧ x.run c = (.absent, x) ∧ x.runAsync c = (.absent, x) ∧
      Leaves c x (s.steps later).2.exchange) ∧
    (∀ command : Command, command.usesUp = some c → (x.present? c).isSome →
      (s.step command).2.exchange.Released c call.feed) ∧
    (∀ i f label, call.feed = some i → x.feeds[i]? = some f → x.farewells c = 0 →
      let y := ((s.addTap label i).steps later).2.exchange
      y.IsGone c → PartsOn c i f x y) ∧
    (∀ (z : Exchange) manner d plan t, z.calls = x.calls → z.journal = x.journal →
      z.runnable d = .ok plan → Reaches Scene.step (z.opening manner d plan) t →
        t.exchange.Accounted c call.feed ∧
        (c ∉ t.workers → t.exchange.IsGone c → t.exchange.Released c call.feed ∧
          ∀ u, Reaches Scene.step t u → Leaves c t.exchange u.exchange)) ∧
    (∀ plan, ∃ new, (x.addPlan plan false).call? x.calls.length = some new ∧
      (x.callOnce plan).2.Released x.calls.length new.feed ∧
      ∀ i f, plan.feed = .shared i → x.feeds[i]? = some f →
        PartsOn x.calls.length i f x
          (callOnce { x with feeds := x.feeds.modify i Feed.subscribe } plan).2) ∧
    (∀ plan manner requests strides (race : Race) (i : Nat) disposed,
      (Race.begin plan manner (.opened requests)).follow strides = some race →
      race.around.shared.uses[i]? = some (.disposed disposed) →
      race.around.shared.anyDisposing = false → ∃ w, ∀ schedule,
        let t := race.around.shared.follow schedule
        t.handle = ⟨.disposed, true⟩ ∧ t.signals = [w] ∧ t.announcements = [w] ∧
          (∀ j : Nat, t.uses[j]? = some (.disposed true) ↔ j = w) ∧
          ∀ j : Nat, t.uses[j]? = some (.started true) →
            race.around.shared.uses[j]? = some (.started true)) := by
  intro s x
  have hguards := kept_steps (isKept_guards c) _ first
    (ready_openWith capacities drafts usual draws quiet)
  have hready : x.Ready := hguards.ready
  have haccounted : x.Accounted c call.feed :=
    hguards.accounted _ (accounted_openWith capacities drafts usual draws quiet hcall)
  have hparted : x.Parted c := hguards.parted (parted_openWith capacities drafts usual draws quiet c)
  refine ⟨haccounted, fun y => farewells_dispose y c, ?_, ?_, ?_, ?_, ?_, ?_⟩
  · intro hgone
    have hspent := hparted.spent hgone
    obtain ⟨hdispose, hstart, hrun, hrunAsync⟩ := hparted.in_vain hgone
    have hlater := kept_steps (isKept_guards c) s later hready
    exact ⟨haccounted.released hspent, hdispose, hstart, hrun, hrunAsync, hlater.spent hspent⟩
  · intro command huses hpresent
    obtain ⟨known, hknown⟩ := Option.isSome_iff_exists.mp hpresent
    have hstep := kept_step (isKept_guards c) s command hready
    exact hstep.released haccounted hparted (isGone_step hready hparted hknown huses)
  · intro i f label hfeed hf hlive y hgone
    have hsame : Leaves c x (s.addTap label i).exchange := leaves_of_same rfl rfl
    have hlater := kept_steps (isKept_guards c) (s.addTap label i) later (hready.of_calls rfl)
    have hreleased := hlater.released (haccounted.of_leaves hsame) (hparted.of_leaves hsame) hgone
    obtain ⟨intakes, -, hchronicle⟩ := chronicle_steps (s.addTap label i) later
    rw [hfeed] at hreleased
    exact hreleased.partsOn hlive hf hchronicle
  · intro z manner d plan t hcalls hjournal hrunnable hreaches
    have hz : z.Ready := hready.of_calls hcalls
    have hsame : Leaves c x z := leaves_of_same hcalls hjournal
    have hz' : z.Accounted c call.feed := haccounted.of_leaves hsame
    refine ⟨accounted_opening hz hrunnable hz' hreaches, ?_⟩
    exact released_within hz hrunnable hz' (hparted.of_leaves hsame) hreaches
  · intro plan
    have hunknown : x.call? x.calls.length = none := by
      unfold call?
      simp
    have htold := told_of_unknown capacities drafts usual draws quiet hunknown
    obtain ⟨new, hnew, hreleased⟩ := released_callOnce hready htold plan
    refine ⟨new, hnew, hreleased, fun i f hshared hf => ?_⟩
    exact partsOn_callOnce hready htold hshared hf
  · intro plan manner requests strides race i disposed hrace huse hquiet
    exact Race.released_of_follow hrace huse hquiet

end Opened

/-- A call with a feed of its own that succeeds and whose callback panics. -/
def unwinding : Session :=
  let draft : Draft :=
    { body := some fun _ => .done (.ok ⟨true, "done"⟩)
      onSuccess := some fun _ => .panic "late"
      events := true }
  (openWith [] [draft] (.usual .latest) (fun _ _ => 0) true).2

/-- The call is given to an asynchronous run, in which its callback panics, and all attempts to do
something with it later are in vain. A reader that was there before finds the end of the call last
on its feed. In the race the body panics, and the call is dropped between the steps of a disposal by
another thread, which has won. -/
theorem call_is_released_unwinding :
    let strides : List Stride :=
      [.started true, .looked false, .told { kind := .attemptStarting, attempt := some 1 },
        .bodyBegan, .other 1, .other 0, .other 1, .other 1]
    let s := (unwinding.steps [.runAsync 0]).2
    let heard := ((unwinding.addTap (.call 0) 0).steps [.runAsync 0]).2.exchange
    (s.exchange.IsGone 0 ∧ s.exchange.Released 0 (some 0) ∧
      Leaves 0 s.exchange (s.steps [.dispose 0, .run 0, .drop 0]).2.exchange) ∧
    ((∃ f, unwinding.exchange.feeds[0]? = some f ∧ PartsOn 0 0 f unwinding.exchange heard) ∧
      (heard.feeds[0]?.bind (·.kept.getLast?)).map (·.kind) = some .handleDisposed) ∧
    ∃ race w, (Race.begin .canceled .blocking (.opened [.dispose, .dispose, .start])).follow strides =
        some race ∧
      race.around.shared.uses = [.disposed false, .disposed true, .starting] ∧
      (race.around.shared.follow [2]).handle = ⟨.disposed, true⟩ ∧
      (race.around.shared.follow [2]).announcements = [w] := by
  intro strides s heard
  obtain ⟨call, hcall, hfeed⟩ :
      ∃ call, unwinding.exchange.call? 0 = some call ∧ call.feed = some 0 := ⟨_, rfl, rfl⟩
  obtain ⟨-, -, hgone, -, -, -, -, hrace⟩ := call_is_released [] _ (.usual .latest)
    (fun _ _ => 0) true hcall [.runAsync 0] [.dispose 0, .run 0, .drop 0]
  have hisgone : s.exchange.IsGone 0 := by decide +kernel
  obtain ⟨hreleased, -, -, -, -, hleaves⟩ := hgone hisgone
  obtain ⟨w, hw⟩ := hrace .canceled .blocking [.dispose, .dispose, .start] strides _ 0 false rfl rfl
    rfl
  obtain ⟨hhandle, -, hannouncements, -⟩ := hw [2]
  rw [hfeed] at hreleased
  obtain ⟨-, -, -, -, hreader, -⟩ := call_is_released [] _ (.usual .latest) (fun _ _ => 0) true hcall
    [] [.runAsync 0]
  have hparts := hreader 0 _ (.call 0) hfeed rfl rfl (by decide +kernel)
  exact ⟨⟨hisgone, hreleased, hleaves⟩, ⟨⟨_, rfl, hparts⟩, by decide +kernel⟩, _, w, rfl, rfl,
    hhandle, hannouncements⟩

end Session

end Redial
