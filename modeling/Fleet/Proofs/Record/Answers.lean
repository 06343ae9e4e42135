import Fleet.Proofs.Record.Following

/-!
# What outcomes tell about the answers

The outcome of reading is what the platform has answered last (`always_fetch?_read`, `always_list_read`). Waiting for
an operation ends with the first snapshot that shows it done, and then with what that snapshot says; or the client gives
up, and nothing is known of the operation (`Followed.waited`).
-/

namespace Fleet.Client

/-! ### Reading -/

theorem always_fetch?_read (c : Client) (kind : Kind) (scope : Scope) (name : String) :
    (c.fetch? kind scope name).run.Always fun r (es : List (Exchange Cloud)) =>
      (∀ e ∈ es, e.query = Call.get kind scope name) ∧
      ∀ a, r = .ok (some a) →
        ∃ t es', es = ⟨t, .get kind scope name, .ok (some (.ofRecord kind a))⟩ :: es' := by
  refine Action.always_bind ((always_send c (.get kind scope name)).mono fun r es hr => ?_)
  rcases r with f | _ | x
  · exact ⟨hr.query_eq, fun a h => by cases h⟩
  · exact Action.always_pure ⟨hr.query_eq, fun a h => by cases h⟩
  · refine Action.always_result ⟨hr.query_eq, fun a h => ?_⟩
    obtain ⟨t, es', hes, -⟩ := hr.eq_cons_of_ok
    cases ha : Resource.ofKind? kind x with
    | error f =>
      rw [ha] at h
      cases h
    | ok a' =>
      rw [ha] at h
      cases h
      rw [← Resource.ofRecord_of_ofKind? ha]
      exact ⟨t, es', hes⟩

theorem always_list_read (c : Client) (kind : Kind) (filter : Filter) :
    (c.list kind filter).run.Always fun r (es : List (Exchange Cloud)) =>
      (∀ e ∈ es, e.query = Call.list kind filter) ∧
      ∀ as, r = .ok as → ∃ t es', es = ⟨t, .list kind filter, .ok (as.map (Resource.ofRecord kind))⟩ :: es' := by
  refine Action.always_bind ((always_send c (.list kind filter)).mono fun r es hr => ?_)
  cases r with
  | error f => exact ⟨hr.query_eq, fun as h => by cases h⟩
  | ok rs =>
    refine Action.always_result ⟨hr.query_eq, fun as h => ?_⟩
    obtain ⟨t, es', hes, -⟩ := hr.eq_cons_of_ok
    rw [← Resource.eq_map_of_mapM_ofKind? h]
    exact ⟨t, es', hes⟩

/-! ### Waiting -/

/-- The platform has been asked for an operation and has not said that it is done. -/
inductive Pending (h : OperationHandle) : Exchange Cloud → Prop
  | unread (t : Nat) (f : Failure) : Pending h ⟨t, .operation h, .error f⟩
  | running (t : Nat) {o : Operation} (ho : o.isDone = false) : Pending h ⟨t, .operation h, .ok o⟩

/-- The outcome of waiting for an operation, and the exchanges meanwhile. -/
inductive Waited (h : OperationHandle) : Except Failure Summary → List (Exchange Cloud) → Prop
  | settled (t : Nat) {o : Operation} (ho : o.isDone = true) {es : List (Exchange Cloud)}
      (hes : ∀ e ∈ es, Pending h e) : Waited h (settled h o) (⟨t, .operation h, .ok o⟩ :: es)
  /-- The platform has refused to tell, otherwise than because it has no record of the operation. -/
  | refused (t : Nat) {f : Failure} (hf : f.isNotFound = false) {es : List (Exchange Cloud)}
      (hes : ∀ e ∈ es, Pending h e) : Waited h (.error f) (⟨t, .operation h, .error f⟩ :: es)
  /-- A failure of the client's own. -/
  | lost {f : Failure} (hf : f.code? = none) (hmissing : f.isNotFound = false) {es : List (Exchange Cloud)}
      (hes : ∀ e ∈ es, Pending h e) : Waited h (.error f) es

variable {h : OperationHandle} {r : Except Failure Summary} {es es' : List (Exchange Cloud)}

theorem Pending.query_eq {e : Exchange Cloud} (he : Pending h e) : e.query = .operation h := by
  cases he with
  | unread t f => rfl
  | running t ho => rfl

theorem Waited.query_eq (hw : Waited h r es) : ∀ e ∈ es, e.query = .operation h := by
  intro e he
  cases hw with
  | settled t ho hes =>
    rcases List.mem_cons.1 he with rfl | he
    · rfl
    · exact (hes e he).query_eq
  | refused t hf hes =>
    rcases List.mem_cons.1 he with rfl | he
    · rfl
    · exact (hes e he).query_eq
  | lost hf hmissing hes => exact (hes e he).query_eq

/-- What is done has been waited for. -/
theorem Waited.of_isDone (hw : Waited h r es) {s : Nat} {h' : OperationHandle} {o : Operation}
    (hmem : ⟨s, .operation h', .ok o⟩ ∈ es) (ho : o.isDone = true) : h' = h ∧ r = Client.settled h o := by
  have hpending : ¬ Pending h ⟨s, .operation h', .ok o⟩ := by
    intro hp
    cases hp with
    | running t hrunning => exact absurd (ho.symm.trans hrunning) (by simp)
  cases hw with
  | settled t hdone hes =>
    rcases List.mem_cons.1 hmem with hmem | hmem
    · cases hmem
      exact ⟨rfl, rfl⟩
    · exact absurd (hes _ hmem) hpending
  | refused t hf hes =>
    rcases List.mem_cons.1 hmem with hmem | hmem
    · cases hmem
    · exact absurd (hes _ hmem) hpending
  | lost hf hmissing hes => exact absurd (hes _ hmem) hpending

private theorem Waited.append (hw : Waited h r es') (hes : ∀ e ∈ es, Pending h e) : Waited h r (es' ++ es) := by
  have both {es'' : List (Exchange Cloud)} (h'' : ∀ e ∈ es'', Pending h e) : ∀ e ∈ es'' ++ es, Pending h e :=
    fun e he => (List.mem_append.1 he).elim (h'' e) (hes e)
  cases hw with
  | settled t ho h' => exact .settled t ho (both h')
  | refused t hf h' => exact .refused t hf (both h')
  | lost hf hmissing h' => exact .lost hf hmissing (both h')

/-- A request that has not shown the operation done. -/
private theorem pending_of_request {limit : Nat} {a : Except Failure Operation}
    (ha : Request limit (.operation h) a es) (hrunning : ∀ o, a = .ok o → o.isDone = false) :
    ∀ e ∈ es, Pending h e := by
  refine ha.sent.forall (fun s m => .unread s (.transport m)) fun t => ?_
  cases a with
  | error f => exact .unread t f
  | ok o => exact .running t (hrunning o rfl)

/-- What has decided about a wait is its outcome. -/
theorem Followed.waited {limit : Nat} (hf : Followed limit h r es) : Waited h r es := by
  induction hf with
  | @last a r es hpoll hr =>
    cases hr with
    | unread f =>
      have hes : ∀ e ∈ es, Pending h e := pending_of_request hpoll fun o => nofun
      by_cases hf : f.isNotFound = true
      · rw [if_pos hf]
        exact .lost rfl rfl hes
      · rw [if_neg hf]
        obtain ⟨t, b, es', rfl, -, rfl | ⟨n, m, hnm, -⟩⟩ := hpoll.sent
        · exact .refused t (Bool.eq_false_iff.2 hf) fun e he => hes e (List.mem_cons_of_mem _ he)
        · -- All attempts were lost, the last one too.
          cases hnm
          exact .lost rfl rfl hes
    | done hdone =>
      obtain ⟨t, es', rfl, hlost⟩ := hpoll.sent.eq_cons_of_ok
      refine .settled t hdone fun e he => ?_
      obtain ⟨s, m, rfl⟩ := hlost e he
      exact .unread s _
    | running hrunning waited =>
      refine .lost rfl rfl (pending_of_request hpoll fun o' ho => ?_)
      cases ho
      exact hrunning
  | again hpoll hrunning _ ih =>
    refine ih.append (pending_of_request hpoll fun o' ho => ?_)
    cases ho
    exact hrunning

end Fleet.Client
