/-
  What a line will come to.

  If the frames of a line close one after the other, each on the results and
  the surroundings that those in front of it leave behind, then the thread from
  outside comes to some outcome (`Line.forecast`).  No step changes what is
  seen of it, as long as the thread from outside leaves that part of the
  surroundings alone while there is work in the line (`Line.Step.forecast`).
-/
import TickEngine.Proofs.OneWorker
import TickEngine.Tasks.Sequential

namespace TickEngine

variable {σ ρ α : Type} {view : σ → α}

/-! ## Outcomes -/

/-- The outcomes look the same. -/
def Alike (view : σ → α) (r r' : Except Panic ρ × σ) : Prop := r.1 = r'.1 ∧ view r.2 = view r'.2

theorem Alike.refl (r : Except Panic ρ × σ) : Alike view r r := ⟨rfl, rfl⟩

theorem Alike.trans {r₁ r₂ r₃ : Except Panic ρ × σ} (h : Alike view r₁ r₂)
    (h' : Alike view r₂ r₃) : Alike view r₁ r₃ :=
  ⟨h.1.trans h'.1, h.2.trans h'.2⟩

/-- A code does the same on surroundings that look the same. -/
theorem Code.Sees.run {code : Code σ ρ} (h : code.Sees view) {x y : σ} (hxy : view x = view y)
    (results : Nat → List ρ) : Alike view (code.run results x) (code.run results y) := by
  induction code generalizing results x y with
  | value | panic => exact ⟨rfl, hxy⟩
  | act change next ih =>
    obtain ⟨hview, hnext⟩ := h.1 x y hxy
    rw [Code.run, Code.run, hnext]
    exact ih y (h.2 y) hview results
  | post task next ihtask ihnext =>
    exact ihnext h.2 (ihtask h.1 hxy _).2 results
  | hand name task next ihtask ihnext =>
    obtain ⟨htask, hview⟩ := ihtask h.1 hxy fun _ => []
    rw [Code.run, Code.run, htask]
    exact ihnext h.2 hview _
  | wait name next ih => exact ih _ (h _) hxy _

/-! ## Outlooks -/

/-- The results of sessions, and the surroundings. -/
structure Outlook (σ ρ : Type) where
  results : Nat → List ρ
  shared : σ

def Common.outlook (c : Common σ ρ) : Outlook σ ρ := ⟨fun s => (c.session s).folded, c.shared⟩

namespace Outlook

/-- A task of a session comes to an end. -/
def tell (v : Outlook σ ρ) (session : Option Nat) (o : Except Panic ρ) : Outlook σ ρ :=
  match session with
  | none => v
  | some s => { v with results := Function.update v.results s (v.results s ++ o.toOption.toList) }

/-- A task comes to an outcome. -/
def after (v : Outlook σ ρ) (session : Option Nat) (r : Except Panic ρ × σ) : Outlook σ ρ :=
  tell { v with shared := r.2 } session r.1

/-- The results in the sessions of a frame, by name. -/
def locals (v : Outlook σ ρ) (env : SortedMap Nat Nat) (name : Nat) : List ρ :=
  ((env.get? name).map v.results).getD []

/-- The outlooks look the same, apart from some sessions. -/
def Agree (view : σ → α) (R : Nat → Prop) (v v' : Outlook σ ρ) : Prop :=
  view v.shared = view v'.shared ∧ ∀ s, R s → v.results s = v'.results s

variable {v v' : Outlook σ ρ} {R : Nat → Prop} {env : SortedMap Nat Nat} {name s : Nat}

theorem Agree.refl (v : Outlook σ ρ) : Agree view R v v := ⟨rfl, fun _ _ => rfl⟩

theorem Agree.tell (h : Agree view R v v') (session : Option Nat) (o : Except Panic ρ) :
    Agree view R (v.tell session o) (v'.tell session o) := by
  cases session with
  | none => exact h
  | some t =>
    refine ⟨h.1, fun s hs => ?_⟩
    by_cases hst : s = t
    · subst hst
      simp only [Outlook.tell, Function.update_self, h.2 s hs]
    · simp only [Outlook.tell, Function.update_of_ne hst, h.2 s hs]

theorem Agree.after (h : ∀ s, R s → v.results s = v'.results s) (session : Option Nat)
    {r r' : Except Panic ρ × σ} (hr : Alike view r r') :
    Agree view R (v.after session r) (v'.after session r') := by
  have hshared : Agree view R { v with shared := r.2 } { v' with shared := r'.2 } := ⟨hr.2, h⟩
  rw [Outlook.after, Outlook.after, hr.1]
  exact hshared.tell session r'.1

theorem results_tell_of_ne {session : Option Nat} (h : session ≠ some s) (o : Except Panic ρ) :
    (v.tell session o).results s = v.results s := by
  cases session with
  | none => rfl
  | some t => exact Function.update_of_ne (fun hst => h (congrArg some hst.symm)) _ _

theorem locals_eq (h : ∀ s ∈ env.values, v.results s = v'.results s) :
    v.locals env = v'.locals env := by
  funext name
  rw [locals, locals]
  cases hget : env.get? name with
  | none => rfl
  | some s => exact h s (SortedMap.mem_values_of_get? hget)

/-- A new session has no results. -/
theorem locals_insert (hget : env.get? name = none) (hs : v.results s = []) :
    v.locals (env.insert name s) = v.locals env := by
  funext name'
  by_cases hname : name = name'
  · subst hname
    simp [locals, hget, hs]
  · simp [locals, SortedMap.get?_insert_of_ne env hname]

theorem locals_erase (v : Outlook σ ρ) (env : SortedMap Nat Nat) (name : Nat) :
    v.locals (env.erase name) = Function.update (v.locals env) name [] := by
  funext name'
  by_cases hname : name = name'
  · subst hname
    simp [locals]
  · simp [locals, SortedMap.get?_erase_of_ne env hname, Function.update_of_ne (Ne.symm hname)]

/-- A session that is held under one name. -/
theorem get?_inj (hget : env.get? name = some s) (honce : env.values.count s ≤ 1) {name' : Nat}
    (hget' : env.get? name' = some s) : name' = name := by
  by_contra hne
  have hcount := (SortedMap.perm_values_erase hget).count_eq s
  rw [List.count_cons_self] at hcount
  have hmem : s ∈ (env.erase name).values :=
    SortedMap.mem_values_of_get? ((env.get?_erase_of_ne (Ne.symm hne)).trans hget')
  have := List.count_pos_iff.2 hmem
  omega

theorem locals_tell (hget : env.get? name = some s) (honce : env.values.count s ≤ 1)
    (o : Except Panic ρ) : (v.tell (some s) o).locals env =
      Function.update (v.locals env) name (v.locals env name ++ o.toOption.toList) := by
  funext name'
  by_cases hname : name' = name
  · subst hname
    simp [locals, hget, tell]
  · rw [Function.update_of_ne hname, locals, locals]
    cases hget' : env.get? name' with
    | none => rfl
    | some t =>
      have hts : t ≠ s := by
        rintro rfl
        exact hname (get?_inj hget honce hget')
      exact Function.update_of_ne hts _ _

end Outlook

/-! ## Closing frames -/

/-- A task is run from its start to its end. -/
def Job.close (job : Job σ ρ) (v : Outlook σ ρ) : Outlook σ ρ :=
  v.after job.session (job.code.run (fun _ => []) v.shared)

/-- The code that is left at a point. -/
def Point.code? : Point σ ρ → Outlook σ ρ → Option (Code σ ρ)
  | .run code, _ => some code
  | .scan _ _ next, _ | .store _ _ next, _ | .assign _ next, _ => some next
  | .reclaim s next, v => some (next (v.results s))
  | .leave, _ | .drop, _ => none

/-- All that is left at the point sees a part of the surroundings. -/
def Point.Sees (view : σ → α) : Point σ ρ → Prop
  | .run code => code.Sees view
  | .scan _ job next | .store _ job next => job.code.Sees view ∧ next.Sees view
  | .assign _ next => next.Sees view
  | .reclaim _ next => ∀ rs, (next rs).Sees view
  | .leave | .drop => True

theorem Point.Sees.job {p : Point σ ρ} (h : p.Sees view) {job : Job σ ρ}
    (hjob : p.job? = some job) : job.code.Sees view := by
  cases p <;> cases hjob <;> exact h.1

theorem Point.Sees.code {p : Point σ ρ} (h : p.Sees view) {v : Outlook σ ρ} {code : Code σ ρ}
    (hcode : p.code? v = some code) : code.Sees view := by
  cases p <;> cases hcode
  · exact h
  · exact h.2
  · exact h.2
  · exact h
  · exact h _

namespace Frame

/-- What the task leaves behind that the frame is placing. -/
def ahead (f : Frame σ ρ) (v : Outlook σ ρ) : Outlook σ ρ :=
  match f.point.job? with
  | none => v
  | some job => job.close v

/-- What the code comes to that the frame has left. -/
def outcome? (f : Frame σ ρ) (v : Outlook σ ρ) : Option (Except Panic ρ × σ) :=
  (f.point.code? (f.ahead v)).map fun code =>
    code.run ((f.ahead v).locals f.env) (f.ahead v).shared

/-- What the frame leaves behind. -/
def close (f : Frame σ ρ) (v : Outlook σ ρ) : Outlook σ ρ :=
  match f.outcome? v with
  | none => f.ahead v
  | some r => (f.ahead v).after f.role.session? r

variable {f : Frame σ ρ} {v v' : Outlook σ ρ} {R : Nat → Prop} {s : Nat}

theorem ahead_agree (h : v.Agree view R v') (hsees : f.point.Sees view) :
    (f.ahead v).Agree view R (f.ahead v') := by
  rw [ahead, ahead]
  cases hjob : f.point.job? with
  | none => exact h
  | some job => exact Outlook.Agree.after h.2 _ ((hsees.job hjob).run h.1 _)

/-- The outcome of a frame depends on the sessions that it holds. -/
theorem outcome?_alike (h : v.Agree view R v') (hR : ∀ s, f.Holds s → R s)
    (hsees : f.point.Sees view) : Option.Rel (Alike view) (f.outcome? v) (f.outcome? v') := by
  have hahead : (f.ahead v).Agree view R (f.ahead v') := ahead_agree h hsees
  have hcode : f.point.code? (f.ahead v) = f.point.code? (f.ahead v') := by
    cases hp : f.point with
    | reclaim s next => rw [Point.code?, Point.code?, hahead.2 s (hR s (.inr (by rw [hp]; rfl)))]
    | _ => rfl
  have hlocals := Outlook.locals_eq fun s hs => hahead.2 s (hR s (.inl hs))
  rw [outcome?, outcome?, hcode, hlocals]
  cases hleft : f.point.code? (f.ahead v') with
  | none => exact .none
  | some code => exact .some ((hsees.code hleft).run hahead.1 _)

theorem close_agree (h : v.Agree view R v') (hR : ∀ s, f.Holds s → R s)
    (hsees : f.point.Sees view) : (f.close v).Agree view R (f.close v') := by
  have halike := outcome?_alike h hR hsees
  rw [close, close]
  revert halike
  cases f.outcome? v <;> cases f.outcome? v' <;> intro halike <;> cases halike
  · exact ahead_agree h hsees
  · rename_i hr
    exact Outlook.Agree.after (ahead_agree h hsees).2 _ hr

/-- A frame leaves other sessions alone. -/
theorem results_close (hrole : f.role.session? ≠ some s)
    (hjob : ∀ job, f.point.job? = some job → job.session ≠ some s) :
    (f.close v).results s = v.results s := by
  have hahead : (f.ahead v).results s = v.results s := by
    rw [ahead]
    cases hp : f.point.job? with
    | none => rfl
    | some job => exact Outlook.results_tell_of_ne (hjob job hp) _
  rw [close]
  cases f.outcome? v with
  | none => exact hahead
  | some r => exact (Outlook.results_tell_of_ne hrole _).trans hahead

end Frame

/-- What frames leave behind that close one after the other. -/
def Outlook.closeAll (v : Outlook σ ρ) (fs : List (Frame σ ρ)) : Outlook σ ρ :=
  fs.foldl (fun v f => f.close v) v

theorem Outlook.Agree.closeAll {v v' : Outlook σ ρ} {R : Nat → Prop} {fs : List (Frame σ ρ)}
    (h : v.Agree view R v') (hR : ∀ f ∈ fs, ∀ s, f.Holds s → R s)
    (hsees : ∀ f ∈ fs, f.point.Sees view) : (v.closeAll fs).Agree view R (v'.closeAll fs) := by
  induction fs generalizing v v' with
  | nil => exact h
  | cons f fs ih =>
    obtain ⟨hf, hfs⟩ := List.forall_mem_cons.1 hR
    obtain ⟨hsee, hsees⟩ := List.forall_mem_cons.1 hsees
    exact ih (Frame.close_agree h hf hsee) hfs hsees

theorem Outlook.results_closeAll {v : Outlook σ ρ} {fs : List (Frame σ ρ)} {s : Nat}
    (h : ∀ f ∈ fs, f.role.session? ≠ some s ∧
      ∀ job, f.point.job? = some job → job.session ≠ some s) :
    (v.closeAll fs).results s = v.results s := by
  induction fs generalizing v with
  | nil => rfl
  | cons f fs ih =>
    obtain ⟨hf, hfs⟩ := List.forall_mem_cons.1 h
    exact (ih hfs).trans (Frame.results_close hf.1 hf.2)

/-- What the thread from outside will come to. -/
def Line.forecast (x : Line σ ρ) : Option (Except Panic ρ × σ) :=
  x.outer.outcome? (x.common.outlook.closeAll x.work)

/-! ## Moves -/

section Moves

variable {f f' : Frame σ ρ} {c c' : Common σ ρ} {s : Nat}

theorem Code.run_of_end {code : Code σ ρ} {o : Except Panic ρ} (h : code.end? = some o)
    (results : Nat → List ρ) (x : σ) : code.run results x = (o, x) := by
  cases code <;> cases h <;> rfl

theorem Common.outlook_modify (c : Common σ ρ) (t : Nat) {g : Session ρ → Session ρ}
    (hg : ∀ S, (g S).folded = S.folded) : (c.modify t g).outlook = c.outlook := by
  refine congrArg (Outlook.mk · c.shared) (funext fun s => ?_)
  rcases c.session_modify_cases s t g with hsame | ⟨-, hnew⟩
  · rw [hsame]
  · rw [hnew, hg]

theorem Common.outlook_opened (c : Common σ ρ) :
    ({ c with sessions := c.sessions ++ [{}] } : Common σ ρ).outlook = c.outlook := by
  refine congrArg (Outlook.mk · c.shared) (funext fun s => ?_)
  rcases c.session_opened_cases s with hsame | ⟨hold, hnew⟩
  · rw [hsame]
  · rw [hnew, hold]

/-- Outlooks that are right about the next session and about one that is taken
    apart. -/
def Outlook.Fair (v : Outlook σ ρ) (c : Common σ ρ) (f : Frame σ ρ) : Prop :=
  v.results c.sessions.length = [] ∧
    ∀ s, f.point.reclaim? = some s → v.results s = (c.session s).folded

theorem Common.outlook_fair (c : Common σ ρ) (f : Frame σ ρ) : c.outlook.Fair c f := by
  refine ⟨?_, fun s _ => rfl⟩
  show (c.session c.sessions.length).folded = []
  rw [session, List.getD_eq_default _ _ le_rfl]

/-- Frames that come to the same outcome leave the same behind. -/
theorem Frame.close_of_outcome {v v' : Outlook σ ρ} {R : Nat → Prop} {r : Except Panic ρ × σ}
    (h : f.outcome? v = some r) (h' : f'.outcome? v' = some r) (hrole : f'.role = f.role)
    (hR : ∀ s, R s → (f.ahead v).results s = (f'.ahead v').results s) :
    (f.close v).Agree view R (f'.close v') := by
  rw [close, close, h, h', hrole]
  exact Outlook.Agree.after hR _ (.refl r)

/-- **What a move does to the outlook.**  Mostly nothing, apart from sessions
    that the frame holds; else it changes the surroundings, or a result is
    combined. -/
theorem Advance.outlook (view : σ → α) (h : Advance f c f' c')
    (honce : ∀ s, f.env.values.count s ≤ 1) (hopened : ∀ s, f.Uses s → s < c.sessions.length) :
    (c'.outlook = c.outlook ∧ ∀ v : Outlook σ ρ, v.Fair c f → f'.outcome? v = f.outcome? v ∧
      (f.close v).Agree view (fun s => ¬ f.Holds s) (f'.close v)) ∨
    (∃ change next, f.point = .run (.act change next) ∧ f.close c.outlook = f'.close c'.outlook) ∨
    ∃ id s, f.role = .task id (some s) ∧ f.close c.outlook = f'.close c'.outlook := by
  cases h with
  | @act role env _ change next => exact .inr (.inl ⟨change, next, rfl, rfl⟩)
  | post =>
    refine .inl ⟨rfl, fun v _ => ⟨rfl, ?_⟩⟩
    exact Frame.close_of_outcome rfl rfl rfl fun _ _ => rfl
  | @opens role env _ code name hname hget =>
    refine .inl ⟨c.outlook_opened, fun v hfair => ?_⟩
    have houtcome : (⟨role, env.insert name c.sessions.length, .run code⟩ : Frame σ ρ).outcome? v =
        (⟨role, env, .run code⟩ : Frame σ ρ).outcome? v := by
      show some (code.run (v.locals _) v.shared) = some (code.run (v.locals env) v.shared)
      rw [Outlook.locals_insert hget hfair.1]
    exact ⟨houtcome, Frame.close_of_outcome rfl houtcome rfl fun _ _ => rfl⟩
  | @hand role env _ name task next t hget =>
    refine .inl ⟨c.outlook_modify t fun _ => rfl, fun v _ => ?_⟩
    have houtcome : (⟨role, env, .scan 0 ⟨c.given, some t, task⟩ next⟩ : Frame σ ρ).outcome? v =
        (⟨role, env, .run (.hand name task next)⟩ : Frame σ ρ).outcome? v := by
      have hlocals := Outlook.locals_tell (σ := σ) (v := { v with shared := (task.run (fun _ => [])
        v.shared).2 }) hget (honce t) (task.run (fun _ => []) v.shared).1
      exact congrArg (fun ls => some (next.run ls _)) hlocals
    refine ⟨houtcome, Frame.close_of_outcome rfl houtcome rfl fun s hs => ?_⟩
    have hts : some t ≠ some s := by
      rintro ⟨⟩
      exact hs (.inl (SortedMap.mem_values_of_get? hget))
    exact (Outlook.results_tell_of_ne hts _).symm
  | @check role env _ name next t session hget hsession hzero =>
    refine .inl ⟨rfl, fun v _ => ?_⟩
    have houtcome : (⟨role, env.erase name, .reclaim t next⟩ : Frame σ ρ).outcome? v =
        (⟨role, env, .run (.wait name next)⟩ : Frame σ ρ).outcome? v := by
      have hname : v.locals env name = v.results t := by rw [Outlook.locals, hget]; rfl
      show some ((next (v.results t)).run (v.locals (env.erase name)) v.shared) =
        some ((next (v.locals env name)).run (Function.update (v.locals env) name []) v.shared)
      rw [Outlook.locals_erase, hname]
    exact ⟨houtcome, Frame.close_of_outcome rfl houtcome rfl fun _ _ => rfl⟩
  | @reclaim role env _ t next session hsession hone =>
    refine .inl ⟨c.outlook_modify t fun _ => rfl, fun v hfair => ?_⟩
    have houtcome : (⟨role, env, .run (next session.folded)⟩ : Frame σ ρ).outcome? v =
        (⟨role, env, .reclaim t next⟩ : Frame σ ρ).outcome? v := by
      have hresults : v.results t = session.folded :=
        (hfair.2 t rfl).trans (congrArg _ (Common.session_eq_of_getElem? hsession))
      show some ((next session.folded).run (v.locals env) v.shared) =
        some ((next (v.results t)).run (v.locals env) v.shared)
      rw [hresults]
    exact ⟨houtcome, Frame.close_of_outcome rfl houtcome rfl fun _ _ => rfl⟩
  | @settle id t env _ code o hend =>
    refine .inr (.inr ⟨id, t, rfl, ?_⟩)
    have hclose : (⟨.task id (some t), env, .run code⟩ : Frame σ ρ).close c.outlook =
        c.outlook.after (some t) (code.run (c.outlook.locals env) c.shared) := rfl
    rw [hclose, Code.run_of_end hend]
    show _ = (c.modify t _).outlook
    refine congrArg (Outlook.mk · c.shared) (funext fun s => ?_)
    by_cases hts : s = t
    · subst hts
      rw [Common.session_modify_self_of_lt (hopened s (.inr (.inr (.inl rfl)))),
        Function.update_self]
      rfl
    · rw [Common.session_modify_of_ne (Ne.symm hts), Function.update_of_ne hts]
      rfl
  | @leave id t env _ =>
    refine .inl ⟨c.outlook_modify t fun _ => rfl, fun v _ => ⟨rfl, Outlook.Agree.refl _⟩⟩

/-- A task that ends leaves behind what it has left already. -/
theorem Ends.close {d : Nat × Option Nat} (h : Ends f c d c') :
    f.close c.outlook = c'.outlook := by
  cases h with
  | @bare id env _ code o hend =>
    have hclose : (⟨.task id none, env, .run code⟩ : Frame σ ρ).close c.outlook =
        c.outlook.after none (code.run (c.outlook.locals env) c.shared) := rfl
    rw [hclose, Code.run_of_end hend]
    rfl
  | @drop id t env _ => exact (c.outlook_modify t (g := Session.release) fun _ => rfl).symm

end Moves

/-! ## Calm threads -/

/-- What is left at the point is calm. -/
def Point.Calm (view : σ → α) : Point σ ρ → List (Option Nat) → Prop
  | .run code, awaited => code.Calm view awaited
  | .scan _ _ next, awaited | .store _ _ next, awaited | .assign _ next, awaited =>
    next.Calm view awaited
  | .reclaim _ next, awaited => ∀ rs, (next rs).Calm view awaited
  | .leave, _ | .drop, _ => True

theorem Advance.sees {f f' : Frame σ ρ} {c c' : Common σ ρ} (h : Advance f c f' c')
    (hf : f.point.Sees view) : f'.point.Sees view := by
  cases h with
  | act => exact hf.2 _
  | check => exact hf
  | reclaim => exact hf _
  | settle | leave => trivial
  | _ => exact hf

/-- The thread from outside is calm, and its tasks in the line are awaited. -/
structure Line.Steady (view : σ → α) (x : Line σ ρ) (awaited : List (Option Nat)) : Prop where
  sees : ∀ f ∈ x.all, f.point.Sees view
  calm : x.outer.point.Calm view awaited
  named : ∀ name s, x.outer.env.get? name = some s → some name ∈ awaited ∨
    ∃ code, x.outer.point = .run code ∧ code.session? = some name
  last : ∀ f, x.work.getLast? = some f → f.role.session? = none → none ∈ awaited
  next : ∀ job, x.outer.point.job? = some job → job.session = none → none ∈ awaited

theorem Hosted.last {fs : List (Frame σ ρ)} {f o : Frame σ ρ} {s : Nat}
    (h : Hosted (fs ++ [f] ++ [o])) (hs : f.role.session? = some s) : o.Holds s := by
  induction fs with
  | nil =>
    obtain ⟨g, hg, hholds⟩ := h.1 s hs
    exact List.mem_singleton.1 hg ▸ hholds
  | cons g fs ih => exact ih h.2

theorem SortedMap.exists_get?_of_mem_values {env : SortedMap Nat Nat} {s : Nat}
    (h : s ∈ env.values) : ∃ name, env.get? name = some s := by
  obtain ⟨⟨name, t⟩, hmem, rfl⟩ := List.mem_map.1 h
  exact ⟨name, SortedMap.mem_entries_iff.1 hmem⟩

namespace Line

variable {x x' : Line σ ρ} {awaited : List (Option Nat)}

/-- When the thread from outside changes the surroundings and awaits no task,
    there is no work. -/
theorem Steady.work_eq_nil (h : x.Steady view []) (hx : x.Linked) {change : σ → σ}
    {next : σ → Code σ ρ} (hact : x.outer.point = .run (.act change next)) : x.work = [] := by
  rcases List.eq_nil_or_concat x.work with hwork | ⟨fs, f, hwork⟩
  · exact hwork
  · rw [List.concat_eq_append] at hwork
    have hhosted := hx.hosted
    rw [all, hwork] at hhosted
    cases hs : f.role.session? with
    | none => cases h.last f (by rw [hwork, List.getLast?_concat]) hs
    | some s =>
      rcases hhosted.last hs with hmem | hreclaim
      · obtain ⟨name, hget⟩ := SortedMap.exists_get?_of_mem_values hmem
        rcases h.named name s hget with hname | ⟨code, hcode, hsession⟩
        · cases hname
        · cases hact.symm.trans hcode
          cases hsession
      · rw [hact] at hreclaim
        cases hreclaim

/-- The task at the end of the line keeps its session. -/
theorem last_cons {f f' : Frame σ ρ} {fs : List (Frame σ ρ)} (hrole : f'.role = f.role)
    (h : ∀ g, (f :: fs).getLast? = some g → g.role.session? = none → none ∈ awaited) :
    ∀ g, (f' :: fs).getLast? = some g → g.role.session? = none → none ∈ awaited := by
  intro g hg hs
  cases fs with
  | nil =>
    cases hg
    exact h f rfl (hrole ▸ hs)
  | cons f'' fs => exact h g hg hs

theorem sees_concat {fs : List (Frame σ ρ)} {o o' : Frame σ ρ}
    (h : ∀ f ∈ fs ++ [o], f.point.Sees view) (ho : o.point.Sees view → o'.point.Sees view) :
    ∀ f ∈ fs ++ [o'], f.point.Sees view := by
  obtain ⟨hfs, hlast⟩ := List.forall_mem_append.1 h
  refine List.forall_mem_append.2 ⟨hfs, fun f hf => ?_⟩
  obtain rfl := List.mem_singleton.1 hf
  exact ho (hlast o (List.mem_singleton_self o))

/-- Every step keeps the thread from outside calm. -/
theorem Step.steady (h : Step x x') (hx : x.Linked) (hsteady : x.Steady view awaited) :
    ∃ awaited', x'.Steady view awaited' := by
  obtain ⟨hsees, hcalm, hnamed, hlast, hnext⟩ := hsteady
  cases h with
  | stay => exact ⟨awaited, hsees, hcalm, hnamed, hlast, hnext⟩
  | @work f f' fs o c c' hadvance =>
    obtain ⟨hsee, hsees⟩ := List.forall_mem_cons.1 hsees
    exact ⟨awaited, List.forall_mem_cons.2 ⟨hadvance.sees hsee, hsees⟩, hcalm, hnamed,
      last_cons hadvance.role_eq hlast, hnext⟩
  | @outer fs o o' c c' hadvance =>
    have hsees := sees_concat hsees hadvance.sees
    cases hadvance with
    | @act role env _ change next =>
      refine ⟨awaited, hsees, hcalm.2 _, fun name s hget => ?_, hlast, nofun⟩
      rcases hnamed name s hget with hname | ⟨code, hcode, hsession⟩
      · exact .inl hname
      · cases hcode
        cases hsession
    | @post role env _ task next =>
      refine ⟨none :: awaited, hsees, hcalm, fun name s hget => ?_,
        fun f hf hs => List.mem_cons_self, fun _ _ _ => List.mem_cons_self⟩
      rcases hnamed name s hget with hname | ⟨code, hcode, hsession⟩
      · exact .inl (List.mem_cons_of_mem _ hname)
      · cases hcode
        cases hsession
    | @opens role env _ code name hsession hnew =>
      refine ⟨awaited, hsees, hcalm, fun name' s hget => ?_, hlast, nofun⟩
      by_cases hname : name = name'
      · subst hname
        exact .inr ⟨code, rfl, hsession⟩
      · rcases hnamed name' s ((env.get?_insert_of_ne hname _).symm.trans hget) with
          hname' | ⟨code', hcode, hsession'⟩
        · exact .inl hname'
        · exact .inr ⟨code', hcode, hsession'⟩
    | @hand role env _ name task next t hget =>
      refine ⟨some name :: awaited, hsees, hcalm, fun name' s hget' => ?_,
        fun f hf hs => List.mem_cons_of_mem _ (hlast f hf hs), fun job hjob hs => ?_⟩
      · rcases hnamed name' s hget' with hname | ⟨code, hcode, hsession⟩
        · exact .inl (List.mem_cons_of_mem _ hname)
        · cases hcode
          cases hsession
          exact .inl List.mem_cons_self
      · cases hjob
        cases hs
    | @check role env _ name next t session hget hsession hzero =>
      refine ⟨awaited.filter (· ≠ some name), hsees, hcalm, fun name' s hget' => ?_,
        fun f hf hs => ?_, nofun⟩
      · by_cases hname : name = name'
        · subst hname
          rw [SortedMap.get?_erase_self] at hget'
          cases hget'
        · rcases hnamed name' s ((env.get?_erase_of_ne hname).symm.trans hget') with
            hname' | ⟨code, hcode, hsession'⟩
          · exact .inl (List.mem_filter.2 ⟨hname', by simpa using Ne.symm hname⟩)
          · cases hcode
            cases hsession'
            exact absurd rfl hname
      · exact List.mem_filter.2 ⟨hlast f hf hs, rfl⟩
    | @reclaim role env _ t next session hsession hone =>
      refine ⟨awaited, hsees, hcalm _, fun name s hget => ?_, hlast, nofun⟩
      rcases hnamed name s hget with hname | ⟨code, hcode, -⟩
      · exact .inl hname
      · cases hcode
    | settle | leave => cases hx.outside
  | @scanWork role env j j' job next fs o c =>
    obtain ⟨hsee, hsees⟩ := List.forall_mem_cons.1 hsees
    exact ⟨awaited, List.forall_mem_cons.2 ⟨hsee, hsees⟩, hcalm, hnamed,
      last_cons (f := ⟨role, env, .scan j job next⟩) rfl hlast, hnext⟩
  | scanOuter | claim =>
    refine ⟨awaited, sees_concat hsees id, hcalm, fun name s hget => ?_, hlast, hnext⟩
    rcases hnamed name s hget with hname | ⟨code, hcode, -⟩
    · exact .inl hname
    · cases hcode
  | put =>
    obtain ⟨hjob, hleft⟩ := List.forall_mem_singleton.1 hsees
    refine ⟨awaited, List.forall_mem_cons.2 ⟨hjob, List.forall_mem_singleton.2 hleft⟩, hcalm,
      fun name s hget => ?_, fun f hf hs => ?_, nofun⟩
    · rcases hnamed name s hget with hname | ⟨code, hcode, -⟩
      · exact .inl hname
      · cases hcode
    · cases hf
      exact hnext _ rfl hs
  | assign =>
    refine ⟨awaited, sees_concat hsees id, hcalm, fun name s hget => ?_, hlast, nofun⟩
    rcases hnamed name s hget with hname | ⟨code, hcode, -⟩
    · exact .inl hname
    · cases hcode
  | @inline role env j job next fs o c =>
    obtain ⟨⟨hjob, hleft⟩, hsees⟩ := List.forall_mem_cons.1 hsees
    refine ⟨awaited, List.forall_mem_cons.2 ⟨hjob, List.forall_mem_cons.2 ⟨hleft, hsees⟩⟩, hcalm,
      hnamed, fun g hg => ?_, hnext⟩
    have hlast : ∀ g, (⟨role, env, .run next⟩ :: fs).getLast? = some g →
        g.role.session? = none → none ∈ awaited :=
      last_cons (f := ⟨role, env, .scan j job next⟩) rfl hlast
    exact hlast g hg
  | @ends f d fs o c c' hends =>
    refine ⟨awaited, (List.forall_mem_cons.1 hsees).2, hcalm, hnamed, fun g hg hs => hlast g ?_ hs,
      hnext⟩
    cases fs with
    | nil => cases hg
    | cons g' fs => exact hg

/-- What the thread from outside does on its own while some tasks are awaited is
    not seen. -/
theorem Steady.act_forecast {role : Role} {env : SortedMap Nat Nat} {change : σ → σ}
    {next : σ → Code σ ρ} {fs : List (Frame σ ρ)} {c : Common σ ρ}
    (h : Steady view ⟨fs, ⟨role, env, .run (.act change next)⟩, c⟩ awaited)
    (hnone : awaited ≠ []) :
    Option.Rel (Alike view)
      (forecast ⟨fs, ⟨role, env, .run (.act change next)⟩, c⟩)
      (forecast ⟨fs, ⟨role, env, .run (next c.shared)⟩, { c with shared := change c.shared }⟩) := by
  obtain ⟨hview, hnext⟩ := h.calm.1 hnone
  obtain ⟨hfs, hlast⟩ := List.forall_mem_append.1 h.sees
  obtain ⟨hact, hsees⟩ := hlast _ (List.mem_singleton_self _)
  have hstart : c.outlook.Agree view (fun _ => True)
      ({ c with shared := change c.shared } : Common σ ρ).outlook :=
    ⟨(hview _).symm, fun _ _ => rfl⟩
  let v := c.outlook.closeAll fs
  let v' := ({ c with shared := change c.shared } : Common σ ρ).outlook.closeAll fs
  obtain ⟨hshared, hresults⟩ : v.Agree view (fun _ => True) v' :=
    hstart.closeAll (fun _ _ _ _ => trivial) hfs
  have hlocals : v.locals env = v'.locals env := Outlook.locals_eq fun s _ => hresults s trivial
  show Option.Rel _ (some ((next v.shared).run (v.locals env) (change v.shared)))
    (some ((next c.shared).run (v'.locals env) v'.shared))
  rw [hnext v.shared c.shared, hlocals]
  exact .some ((hsees c.shared).run ((hview _).trans hshared) _)

/-- **No step changes what the line will come to**, as far as it is seen. -/
theorem Step.forecast (h : Step x x') (hx : x.Linked) (howned : x.Owned)
    (hsteady : x.Steady view awaited) : Option.Rel (Alike view) x.forecast x'.forecast := by
  have hsame : ∀ {y : Line σ ρ}, y.forecast = x.forecast →
      Option.Rel (Alike view) x.forecast y.forecast := by
    intro y hy
    rw [hy]
    cases x.forecast with
    | none => exact .none
    | some r => exact .some (.refl r)
  cases h with
  | stay | scanWork | scanOuter | claim | put | assign | inline => exact hsame rfl
  | @work f f' fs o c c' hadvance =>
    obtain ⟨halone, -⟩ := List.pairwise_cons.1 howned.alone
    obtain ⟨-, hsees⟩ := List.forall_mem_cons.1 hsteady.sees
    have hagree : (f.close c.outlook).Agree view (fun s => ¬ f.Holds s) (f'.close c'.outlook) := by
      rcases hadvance.outlook view (howned.once f List.mem_cons_self)
        (howned.opened f List.mem_cons_self) with ⟨hsame, hall⟩ | ⟨-, -, -, heq⟩ | ⟨-, -, -, heq⟩
      · rw [hsame]
        exact (hall _ (c.outlook_fair f)).2
      · rw [heq]
        exact .refl _
      · rw [heq]
        exact .refl _
    have hothers : ∀ g ∈ fs ++ [o], ∀ s, g.Holds s → ¬ f.Holds s :=
      fun g hg s hs hf => halone g hg s hf hs
    refine Frame.outcome?_alike (hagree.closeAll (fun g hg => ?_) fun g hg => ?_) ?_ ?_
    · exact hothers g (List.mem_append_left _ hg)
    · exact hsees g (List.mem_append_left _ hg)
    · exact hothers o (List.mem_append_right _ (List.mem_singleton_self o))
    · exact hsees o (List.mem_append_right _ (List.mem_singleton_self o))
  | @outer fs o o' c c' hadvance =>
    have hmem : o ∈ fs ++ [o] := List.mem_append_right _ (List.mem_singleton_self o)
    rcases hadvance.outlook view (howned.once o hmem) (howned.opened o hmem) with
      ⟨hunseen, hall⟩ | ⟨change, next, hact, -⟩ | ⟨id, s, hrole, -⟩
    · refine hsame ?_
      show o'.outcome? (c'.outlook.closeAll fs) = o.outcome? (c.outlook.closeAll fs)
      rw [hunseen]
      refine (hall _ ⟨?_, fun s hs => ?_⟩).1
      · -- nobody knows a session that was not opened
        refine (Outlook.results_closeAll fun f hf => ?_).trans (c.outlook_fair o).1
        have hnot : ¬ f.Uses c.sessions.length := fun huses =>
          Nat.lt_irrefl _ (howned.opened f (List.mem_append_left _ hf) _ huses)
        exact ⟨fun hs => hnot (.inr (.inr (.inl (Role.is_session.2 hs)))),
          fun job hjob hs => hnot (.inr (.inr (.inr ⟨job, hjob, hs⟩)))⟩
      · cases hadvance with
        | reclaim hsession hone =>
          cases hs
          refine Outlook.results_closeAll fun f hf => ?_
          exact howned.last _ hmem _ rfl (Common.session_eq_of_getElem? hsession ▸ hone) f
            (List.mem_append_left _ hf)
        | _ => cases hs
    · cases hadvance with
      | @act role env _ change next =>
        by_cases hnone : awaited = []
        · subst hnone
          obtain rfl : fs = [] := hsteady.work_eq_nil hx rfl
          exact hsame rfl
        · exact hsteady.act_forecast hnone
      | opens hname =>
        cases hact
        cases hname
      | settle => cases hx.outside
      | _ => cases hact
    · rw [show o.role = .outer from hx.outside] at hrole
      cases hrole
  | @ends f d fs o c c' hends =>
    refine hsame ?_
    show o.outcome? (c'.outlook.closeAll fs) = o.outcome? ((f.close c.outlook).closeAll fs)
    rw [hends.close]

end Line

end TickEngine
