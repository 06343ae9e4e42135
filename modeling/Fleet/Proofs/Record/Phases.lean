import Fleet.Group

/-!
# The phases of a launch and of a teardown

A launch chooses names, runs the nodes side by side and looks after the network; the teardown of a group lists its
members, runs them side by side and takes away networks. `Manager.launch_run` and `Manager.destroyGroup_run` tell the
phases apart, each of them with the world that it leaves behind. Where only the last world matters,
`Manager.after_launch` and `Manager.after_destroyGroup` say what has to be shown of each phase.
-/

namespace Fleet.Manager

variable {σ : Type} [Service Cloud σ]

/-- How a launch goes, from the world `w` on. -/
inductive LaunchRun (mgr : Manager) (group : String) (count : Nat) (t : NodeTemplate) (w : World Cloud σ) :
    Except Failure LaunchReport → World Cloud σ → Prop
  | invalid {f : Failure} (h : Naming.validateGroup group = .error f) : LaunchRun mgr group count t w (.error f) w
  | nothing (h : count = 0) : LaunchRun mgr group count t w (.ok .empty) w
  | unnamed {f : Failure} {w₁ : World Cloud σ} (hchoose : (mgr.chooseNames group count).run.run w = (.error f, w₁)) :
      LaunchRun mgr group count t w (.error f) w₁
  | launched {names : List String} {rs : List (String × Except Failure Instance)} {report : LaunchReport}
      {w₁ w₂ w₃ : World Cloud σ} (hchoose : (mgr.chooseNames group count).run.run w = (.ok names, w₁))
      (hpool : runPool mgr.concurrency
        (names.map fun n => mgr.launchNode (.ofTemplate n group (mgr.networkFor group t) t)) w₁ = (rs, w₂))
      (hlast : (mgr.reclaimAfterLaunch (mgr.networkFor group t) (launchReport rs)).run w₂ = (report, w₃)) :
      LaunchRun mgr group count t w (.ok { report with durationMs := w₃.now - w.now }) w₃

theorem launch_run (mgr : Manager) (group : String) (count : Nat) (t : NodeTemplate) (w : World Cloud σ) :
    LaunchRun mgr group count t w (mgr.launch group count t w).1 (mgr.launch group count t w).2 := by
  unfold launch
  rcases hvalid : Naming.validateGroup group with f | _
  · exact .invalid hvalid
  by_cases hcount : count = 0
  · simp only [if_pos hcount]
    exact .nothing hcount
  simp only [if_neg hcount]
  rcases hchoose : (mgr.chooseNames group count).run.run w with ⟨f | names, w₁⟩
  · exact .unnamed hchoose
  · exact .launched hchoose rfl rfl

/-- What holds of the world after a launch: names are chosen in a valid group only. -/
theorem after_launch {mgr : Manager} {group : String} {count : Nat} {t : NodeTemplate} {w : World Cloud σ}
    {P : World Cloud σ → Prop} (hnothing : P w)
    (hunnamed : ∀ f w₁, (mgr.chooseNames group count).run.run w = (.error f, w₁) → P w₁)
    (hlaunched : ∀ names w₁ rs w₂, Naming.validateGroup group = .ok () →
      (mgr.chooseNames group count).run.run w = (.ok names, w₁) →
      runPool mgr.concurrency
        (names.map fun n => mgr.launchNode (.ofTemplate n group (mgr.networkFor group t) t)) w₁ = (rs, w₂) →
      P ((mgr.reclaimAfterLaunch (mgr.networkFor group t) (launchReport rs)).run w₂).2) :
    P (mgr.launch group count t w).2 := by
  unfold launch
  rcases hvalid : Naming.validateGroup group with f | _
  · exact hnothing
  by_cases hcount : count = 0
  · simp only [if_pos hcount]
    exact hnothing
  simp only [if_neg hcount]
  rcases hchoose : (mgr.chooseNames group count).run.run w with ⟨f | names, w₁⟩
  · exact hunnamed f w₁ hchoose
  · exact hlaunched names w₁ _ _ hvalid hchoose rfl

/-- How the teardown of a group goes, from the world `w` on. -/
inductive TeardownRun (mgr : Manager) (group : String) (w : World Cloud σ) :
    Except Failure TeardownReport → World Cloud σ → Prop
  | unlisted {f : Failure} {w₁ : World Cloud σ}
      (hlist : (mgr.client.list .instance (.withLabel Naming.groupKey group)).run.run w = (.error f, w₁)) :
      TeardownRun mgr group w (.error f) w₁
  | unreported {members : List Instance} {rs : List (Instance × Except Failure Unit)} {f : Failure}
      {w₁ w₂ w₃ : World Cloud σ}
      (hlist : (mgr.client.list .instance (.withLabel Naming.groupKey group)).run.run w = (.ok members, w₁))
      (hpool : runPool mgr.concurrency (members.map mgr.destroyMember) w₁ = (rs, w₂))
      (hlast : (mgr.reclaimGroup group members rs).run.run w₂ = (.error f, w₃)) :
      TeardownRun mgr group w (.error f) w₃
  | destroyed {members : List Instance} {rs : List (Instance × Except Failure Unit)} {report : TeardownReport}
      {w₁ w₂ w₃ : World Cloud σ}
      (hlist : (mgr.client.list .instance (.withLabel Naming.groupKey group)).run.run w = (.ok members, w₁))
      (hpool : runPool mgr.concurrency (members.map mgr.destroyMember) w₁ = (rs, w₂))
      (hlast : (mgr.reclaimGroup group members rs).run.run w₂ = (.ok report, w₃)) :
      TeardownRun mgr group w (.ok { report with durationMs := w₃.now - w.now }) w₃

theorem destroyGroup_run (mgr : Manager) (group : String) (w : World Cloud σ) :
    TeardownRun mgr group w (mgr.destroyGroup group w).1 (mgr.destroyGroup group w).2 := by
  unfold destroyGroup
  rcases hlist : (mgr.client.list .instance (.withLabel Naming.groupKey group)).run.run w with ⟨f | members, w₁⟩
  · exact .unlisted hlist
  rcases hpool : runPool mgr.concurrency (members.map mgr.destroyMember) w₁ with ⟨rs, w₂⟩
  rcases hlast : (mgr.reclaimGroup group members rs).run.run w₂ with ⟨f | report, w₃⟩
  · simp only [hpool, hlast]
    exact .unreported hlist hpool hlast
  · simp only [hpool, hlast]
    exact .destroyed hlist hpool hlast

/-- What holds of the world after the teardown of a group, whether its report is returned or not. -/
theorem after_destroyGroup {mgr : Manager} {group : String} {w : World Cloud σ} {P : World Cloud σ → Prop}
    (hunlisted : ∀ f w₁, (mgr.client.list .instance (.withLabel Naming.groupKey group)).run.run w = (.error f, w₁) →
      P w₁)
    (hlisted : ∀ members w₁ rs w₂,
      (mgr.client.list .instance (.withLabel Naming.groupKey group)).run.run w = (.ok members, w₁) →
      runPool mgr.concurrency (members.map mgr.destroyMember) w₁ = (rs, w₂) →
      P ((mgr.reclaimGroup group members rs).run.run w₂).2) :
    P (mgr.destroyGroup group w).2 := by
  have hrun := mgr.destroyGroup_run group w
  generalize (mgr.destroyGroup group w).1 = r, (mgr.destroyGroup group w).2 = w' at hrun
  cases hrun with
  | unlisted hlist => exact hunlisted _ _ hlist
  | unreported hlist hpool hlast => exact (congrArg (P ·.2) hlast).mp (hlisted _ _ _ _ hlist hpool)
  | destroyed hlist hpool hlast => exact (congrArg (P ·.2) hlast).mp (hlisted _ _ _ _ hlist hpool)

end Fleet.Manager
