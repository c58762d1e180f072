import BeautyAwg.NodeAgent.Update

/-!
# `NodeAgent.Correctness.Update`: the program is never a part of a download

Whatever updates overlap and wherever they are cut off, the agent's file is the one it was installed with or a whole
download of an address that the panel named, and so is the program that runs after a restart (`program_whole`). The
argument needs the temporary files to be apart: `os.CreateTemp` must not give a name again while the deferred
`os.Remove` of an update that had it before is still to come, which is why the names it draws are not to repeat.

## Contents
- **The invariant.** `Whole`, `StageOk`, `Inv`.
- **Steps.** `inv_own`: a step that touches the files of one update; `inv_step`, `inv_steps`.
- **Runs.** `program_whole`, `program_whole_restart`.
-/

namespace BeautyAwg
namespace NodeAgent
namespace Update

open Directory

variable {exe : String} {d₀ : Dir UInt8} {f₀ : File UInt8} {w w' : World} {i : Nat} {s : Stage} {d : Download}

/-! ## The invariant -/

/-- A download of an address that the panel named. -/
def Genuine (w : World) (d : Download) : Prop := d ∈ w.served ∧ d.url ∈ w.named

/-- The file the agent was installed with, or a whole download that can be executed. -/
def Whole (f₀ : File UInt8) (w : World) (f : File UInt8) : Prop :=
  f = f₀ ∨ ∃ d, Genuine w d ∧ f = ⟨d.body, 0o755⟩

/-- What an update has in hand. -/
def StageOk (w : World) : Stage → Prop
  | .requested url => url ∈ w.named
  | .answered d => Genuine w d
  | .copying d tmp fd left => Genuine w d ∧ w.dir.entries tmp = some fd ∧
      ∃ f, w.dir.file tmp = some f ∧ f.content ++ left = d.body
  | .copied d tmp fd => Genuine w d ∧ w.dir.entries tmp = some fd ∧ ∃ f, w.dir.file tmp = some f ∧ f.content = d.body
  | .executable d tmp fd => Genuine w d ∧ w.dir.entries tmp = some fd ∧ w.dir.file tmp = some ⟨d.body, 0o755⟩
  | .removing _ => True

/-- The invariant of a run: the agent's file and the running program are whole, each update's temporary file is its
    own, and no other file has changed. -/
structure Inv (exe : String) (d₀ : Dir UInt8) (f₀ : File UInt8) (w : World) : Prop where
  program : ∃ f, w.dir.file exe = some f ∧ Whole f₀ w f
  running : ∃ f, w.running = f.content ∧ Whole f₀ w f
  offered : w.updateURL ≠ "" → w.updateURL ∈ w.named
  stages : ∀ i s, w.updates i = some s → StageOk w s
  /-- The names of the temporary files were drawn for them and are free of each other. -/
  drawn : ∀ i s tmp, w.updates i = some s → s.name = some tmp → tmp ∈ w.drawn
  apart : ∀ i j s s' tmp, w.updates i = some s → w.updates j = some s' → s.name = some tmp → s'.name = some tmp → i = j
  fresh : ∀ n ∈ w.drawn, n ≠ exe ∧ d₀.file n = none
  rest : ∀ n, n ≠ exe → n ∉ w.drawn → w.dir.file n = d₀.file n
  tidy : w.tidy = true → ∀ n ∈ w.drawn, w.dir.file n ≠ none → ∃ i s, w.updates i = some s ∧ s.name = some n

/-- More served and named releases make no download less genuine. -/
theorem Genuine.mono (hserved : ∀ x ∈ w.served, x ∈ w'.served) (hnamed : ∀ x ∈ w.named, x ∈ w'.named)
    (h : Genuine w d) : Genuine w' d := ⟨hserved d h.1, hnamed _ h.2⟩

/-- More served and named releases make no file less whole. -/
theorem Whole.mono {f : File UInt8} (hserved : ∀ x ∈ w.served, x ∈ w'.served) (hnamed : ∀ x ∈ w.named, x ∈ w'.named)
    (h : Whole f₀ w f) : Whole f₀ w' f :=
  h.imp id fun ⟨d, hd, hf⟩ => ⟨d, hd.mono hserved hnamed, hf⟩

/-- An update has what it had when its temporary file is as it was. -/
theorem StageOk.mono (hserved : ∀ x ∈ w.served, x ∈ w'.served) (hnamed : ∀ x ∈ w.named, x ∈ w'.named)
    (hdir : ∀ n, s.name = some n → w'.dir.entries n = w.dir.entries n ∧ w'.dir.file n = w.dir.file n)
    (h : StageOk w s) : StageOk w' s := by
  cases s with
  | requested url => exact hnamed _ h
  | answered d => exact Genuine.mono hserved hnamed h
  | copying d tmp fd left =>
    obtain ⟨hd, hentry, hfile⟩ := h
    obtain ⟨hentries, hfiles⟩ := hdir tmp rfl
    exact ⟨hd.mono hserved hnamed, hentries ▸ hentry, hfiles ▸ hfile⟩
  | copied d tmp fd =>
    obtain ⟨hd, hentry, hfile⟩ := h
    obtain ⟨hentries, hfiles⟩ := hdir tmp rfl
    exact ⟨hd.mono hserved hnamed, hentries ▸ hentry, hfiles ▸ hfile⟩
  | executable d tmp fd =>
    obtain ⟨hd, hentry, hfile⟩ := h
    obtain ⟨hentries, hfiles⟩ := hdir tmp rfl
    exact ⟨hd.mono hserved hnamed, hentries ▸ hentry, hfiles ▸ hfile⟩
  | removing tmp => trivial

/-! ## Steps -/

theorem setStage_self {o : Option Stage} : (w.setStage i o).updates i = o := if_pos rfl

theorem setStage_other {o : Option Stage} {j : Nat} (h : j ≠ i) : (w.setStage i o).updates j = w.updates j := if_neg h

/-- The name that update `i` may touch. -/
def nameOf (w : World) (i : Nat) : Option String := (w.updates i).bind Stage.name

/-- A step of one update that draws no name and touches, beside the agent's program, only the file of the name it
    has: it keeps that name or gives it up. -/
theorem inv_own (hinv : Inv exe d₀ f₀ w) {o : Option Stage} (hupdates : w'.updates = (w.setStage i o).updates)
    (hkeep : o.bind Stage.name = none ∨ o.bind Stage.name = nameOf w i) (hok : ∀ s, o = some s → StageOk w' s)
    (hprogram : ∃ f, w'.dir.file exe = some f ∧ Whole f₀ w' f)
    (hdir : ∀ n, n ≠ exe → nameOf w i ≠ some n →
      w'.dir.entries n = w.dir.entries n ∧ w'.dir.file n = w.dir.file n)
    (hserved : ∀ x ∈ w.served, x ∈ w'.served) (hnamed : w'.named = w.named) (hdrawn : w'.drawn = w.drawn)
    (hrunning : w'.running = w.running) (hurl : w'.updateURL = w.updateURL)
    (htidy : w'.tidy = true → w.tidy = true ∧
      ∀ n, nameOf w i = some n → o.bind Stage.name ≠ some n → w'.dir.file n = none) :
    Inv exe d₀ f₀ w' := by
  have hnamed' : ∀ x ∈ w.named, x ∈ w'.named := fun x hx => hnamed ▸ hx
  -- every update but this one is where it was
  have hcases : ∀ {j : Nat} {s : Stage}, w'.updates j = some s → j = i ∧ o = some s ∨ j ≠ i ∧ w.updates j = some s := by
    intro j s hj
    rw [hupdates] at hj
    by_cases hji : j = i
    · subst hji
      exact .inl ⟨rfl, setStage_self.symm.trans hj⟩
    · exact .inr ⟨hji, (setStage_other hji).symm.trans hj⟩
  -- and this one has the name it had, or none
  have hname : ∀ {s : Stage} {tmp : String}, o = some s → s.name = some tmp →
      ∃ s₀, w.updates i = some s₀ ∧ s₀.name = some tmp := by
    intro s tmp ho htmp
    rw [ho] at hkeep
    rcases hkeep with hnone | hsame
    · exact absurd (htmp.symm.trans hnone) (by simp)
    · have hbind : nameOf w i = some tmp := hsame.symm.trans htmp
      exact Option.bind_eq_some_iff.mp hbind
  have hold : ∀ {j : Nat} {s : Stage} {tmp : String}, w'.updates j = some s → s.name = some tmp →
      ∃ s₀, w.updates j = some s₀ ∧ s₀.name = some tmp := by
    intro j s tmp hj htmp
    rcases hcases hj with ⟨rfl, ho⟩ | ⟨-, hj'⟩
    · exact hname ho htmp
    · exact ⟨s, hj', htmp⟩
  refine ⟨hprogram, ?_, ?_, fun j s hj => ?_, fun j s tmp hj htmp => ?_, fun j k s s' tmp hj hk htmp htmp' => ?_, ?_,
    fun n hne hn => ?_, fun ht n hn hfile => ?_⟩
  · obtain ⟨f, hf, hwhole⟩ := hinv.running
    exact ⟨f, hrunning.trans hf, hwhole.mono hserved hnamed'⟩
  · rw [hurl, hnamed]
    exact hinv.offered
  · rcases hcases hj with ⟨-, ho⟩ | ⟨hji, hj'⟩
    · exact hok s ho
    · refine (hinv.stages j s hj').mono hserved hnamed' fun n hn => hdir n ?_ fun hi => ?_
      · exact (hinv.fresh n (hinv.drawn j s n hj' hn)).1
      · obtain ⟨s₀, hs₀, hn₀⟩ := Option.bind_eq_some_iff.mp hi
        exact hji (hinv.apart j i s s₀ n hj' hs₀ hn hn₀)
  · rw [hdrawn]
    obtain ⟨s₀, hj₀, htmp₀⟩ := hold hj htmp
    exact hinv.drawn j s₀ tmp hj₀ htmp₀
  · obtain ⟨s₀, hj₀, htmp₀⟩ := hold hj htmp
    obtain ⟨s₁, hk₁, htmp₁⟩ := hold hk htmp'
    exact hinv.apart j k s₀ s₁ tmp hj₀ hk₁ htmp₀ htmp₁
  · rw [hdrawn]
    exact hinv.fresh
  · rw [hdrawn] at hn
    refine ((hdir n hne fun hi => ?_).2).trans (hinv.rest n hne hn)
    obtain ⟨s₀, hs₀, hn₀⟩ := Option.bind_eq_some_iff.mp hi
    exact hn (hinv.drawn i s₀ n hs₀ hn₀)
  · rw [hdrawn] at hn
    obtain ⟨htidy₀, hgone⟩ := htidy ht
    by_cases hi : nameOf w i = some n
    · by_cases ho : o.bind Stage.name = some n
      · obtain ⟨s, hs, hsn⟩ := Option.bind_eq_some_iff.mp ho
        exact ⟨i, s, by rw [hupdates, setStage_self, hs], hsn⟩
      · exact absurd (hgone n hi ho) hfile
    · rw [(hdir n (hinv.fresh n hn).1 hi).2] at hfile
      obtain ⟨j, s, hj, hs⟩ := hinv.tidy htidy₀ n hn hfile
      have hji : j ≠ i := by
        rintro rfl
        exact hi (Option.bind_eq_some_iff.mpr ⟨s, hj, hs⟩)
      exact ⟨j, s, by rw [hupdates, setStage_other hji]; exact hj, hs⟩

theorem nameOf_eq (hi : w.updates i = some s) : nameOf w i = s.name := by
  unfold nameOf
  rw [hi]
  rfl

/-- A temporary file never has the binary's own name. -/
theorem Inv.temp_ne_exe (hinv : Inv exe d₀ f₀ w) (hi : w.updates i = some s) {tmp : String}
    (hname : s.name = some tmp) : tmp ≠ exe :=
  (hinv.fresh tmp (hinv.drawn i s tmp hi hname)).1

/-- A write to the open temporary file touches nothing else. -/
theorem inv_modify (hinv : Inv exe d₀ f₀ w) {s' : Stage} {tmp : String} {fd : Nat} {g : File UInt8 → File UInt8}
    (hi : w.updates i = some s) (hname : s.name = some tmp) (hname' : s'.name = some tmp)
    (hentry : w.dir.entries tmp = some fd)
    (hok : StageOk { w.setStage i (some s') with dir := w.dir.modify fd g } s') :
    Inv exe d₀ f₀ { w.setStage i (some s') with dir := w.dir.modify fd g } := by
  have hown := (nameOf_eq hi).trans hname
  have hne := hinv.temp_ne_exe hi hname
  refine inv_own (i := i) (o := some s') hinv rfl (.inr (hname'.trans hown.symm)) ?_ ?_ ?_ (fun _ hx => hx) rfl rfl
    rfl rfl fun ht => ⟨ht, fun n hn ho => ?_⟩
  · rintro x ⟨⟩
    exact hok
  · obtain ⟨f, hf, hwhole⟩ := hinv.program
    refine ⟨f, ?_, hwhole⟩
    rw [Dir.file_modify hentry, if_neg hne.symm]
    exact hf
  · intro n _ hn
    have hnt : n ≠ tmp := fun he => hn (he ▸ hown)
    exact ⟨rfl, by rw [Dir.file_modify hentry, if_neg hnt]⟩
  · exact absurd (hname'.trans (hown.symm.trans hn)) ho

/-- An update that does nothing to the directory. -/
theorem inv_setStage (hinv : Inv exe d₀ f₀ w) {o : Option Stage}
    (hkeep : o.bind Stage.name = nameOf w i) (hok : ∀ s, o = some s → StageOk w s) :
    Inv exe d₀ f₀ (w.setStage i o) :=
  inv_own hinv rfl (.inr hkeep) hok hinv.program (fun _ _ _ => ⟨rfl, rfl⟩) (fun _ hx => hx) rfl rfl rfl rfl
    fun ht => ⟨ht, fun _ hn ho => absurd (hkeep.trans hn) ho⟩

/-- A new temporary file is under a name that no file and no update had. -/
theorem inv_createTemp (hinv : Inv exe d₀ f₀ w) {tmp : String} (hi : w.updates i = some (.answered d))
    (hfree : w.dir.entries tmp = none) (hdrawn : tmp ∉ w.drawn) :
    Inv exe d₀ f₀ { w.setStage i (some (.copying d tmp w.dir.next d.body)) with
      dir := w.dir.create tmp ⟨[], 0o600⟩, drawn := tmp :: w.drawn } := by
  -- the name is free, the binary's is taken
  have hne : tmp ≠ exe := by
    rintro rfl
    obtain ⟨f, hf, -⟩ := hinv.program
    exact absurd (hf.symm.trans (Dir.file_eq_none.mpr hfree)) (by simp)
  have hcases : ∀ {j : Nat} {s : Stage}, (w.setStage i (some (.copying d tmp w.dir.next d.body))).updates j = some s →
      j = i ∧ s = .copying d tmp w.dir.next d.body ∨ j ≠ i ∧ w.updates j = some s := by
    intro j s hj
    by_cases hji : j = i
    · subst hji
      exact .inl ⟨rfl, (Option.some.inj (setStage_self.symm.trans hj)).symm⟩
    · exact .inr ⟨hji, (setStage_other hji).symm.trans hj⟩
  have hother : ∀ {n : String}, n ≠ tmp → (w.dir.create tmp ⟨[], 0o600⟩).file n = w.dir.file n := fun h =>
    Dir.file_create.trans (if_neg h)
  -- the names of the other updates were drawn before
  have hold : ∀ {j : Nat} {s : Stage} {n : String}, w.updates j = some s → s.name = some n → n ≠ tmp := by
    rintro j s n hj hn rfl
    exact hdrawn (hinv.drawn j s n hj hn)
  refine ⟨?_, hinv.running, hinv.offered, fun j s hj => ?_, fun j s n hj hn => ?_, fun j k s s' n hj hk hn hn' => ?_,
    fun n hn => ?_, fun n hne' hn => ?_, fun ht n hn hfile => ?_⟩
  · obtain ⟨f, hf, hwhole⟩ := hinv.program
    exact ⟨f, (hother hne.symm).trans hf, hwhole⟩
  · rcases hcases hj with ⟨-, rfl⟩ | ⟨-, hj'⟩
    · exact ⟨hinv.stages i _ hi, if_pos rfl, _, Dir.file_create.trans (if_pos rfl), rfl⟩
    · refine (hinv.stages j s hj').mono (w := w) (fun _ hx => hx) (fun _ hx => hx) fun n hn => ?_
      exact ⟨if_neg (hold hj' hn), hother (hold hj' hn)⟩
  · rcases hcases hj with ⟨-, rfl⟩ | ⟨-, hj'⟩
    · exact List.mem_cons.mpr (.inl (Option.some.inj hn).symm)
    · exact List.mem_cons_of_mem _ (hinv.drawn j s n hj' hn)
  · rcases hcases hj with ⟨rfl, rfl⟩ | ⟨-, hj'⟩ <;> rcases hcases hk with ⟨rfl, rfl⟩ | ⟨-, hk'⟩
    · rfl
    · exact absurd (Option.some.inj hn).symm (hold hk' hn')
    · exact absurd (Option.some.inj hn').symm (hold hj' hn)
    · exact hinv.apart j k s s' n hj' hk' hn hn'
  · rcases List.mem_cons.mp hn with rfl | hn'
    · exact ⟨hne, (hinv.rest n hne hdrawn).symm.trans (Dir.file_eq_none.mpr hfree)⟩
    · exact hinv.fresh n hn'
  · obtain ⟨hnt, hn'⟩ := not_or.mp (mt List.mem_cons.mpr hn)
    exact (hother hnt).trans (hinv.rest n hne' hn')
  · by_cases hnt : n = tmp
    · exact ⟨i, _, setStage_self, congrArg some hnt.symm⟩
    · rw [hother hnt] at hfile
      obtain ⟨j, s, hj, hs⟩ := hinv.tidy ht n ((List.mem_cons.mp hn).resolve_left hnt) hfile
      have hji : j ≠ i := by
        rintro rfl
        cases hi.symm.trans hj
        exact absurd hs (by simp [Stage.name, Stage.temp])
      exact ⟨j, s, (setStage_other hji).trans hj, hs⟩

/-- A step keeps the invariant, as long as the names of temporary files do not repeat. -/
theorem inv_step (hstep : World.Step exe w w') (hnodup : w'.drawn.Nodup) (hinv : Inv exe d₀ f₀ w) :
    Inv exe d₀ f₀ w' := by
  cases hstep with
  | poll url =>
    have hnamed : ∀ x ∈ w.named, x ∈ url :: w.named := fun x hx => List.mem_cons_of_mem _ hx
    refine ⟨?_, ?_, fun _ => List.mem_cons_self, fun i s hi => ?_, hinv.drawn, hinv.apart, hinv.fresh, hinv.rest,
      hinv.tidy⟩
    · obtain ⟨f, hf, hwhole⟩ := hinv.program
      exact ⟨f, hf, hwhole.mono (w := w) (fun _ hx => hx) hnamed⟩
    · obtain ⟨f, hf, hwhole⟩ := hinv.running
      exact ⟨f, hf, hwhole.mono (w := w) (fun _ hx => hx) hnamed⟩
    · exact (hinv.stages i s hi).mono (w := w) (fun _ hx => hx) hnamed fun _ _ => ⟨rfl, rfl⟩
  | @applyUpdate i hfree hurl =>
    refine inv_setStage hinv (by simp [nameOf, hfree, Stage.name, Stage.temp]) ?_
    rintro s ⟨⟩
    exact hinv.offered hurl
  | @get i url body hi =>
    have hserved : ∀ x ∈ w.served, x ∈ (⟨url, body⟩ : Download) :: w.served := fun x hx => List.mem_cons_of_mem _ hx
    have hkeep : Option.bind (some (Stage.answered ⟨url, body⟩)) Stage.name = nameOf w i := (nameOf_eq hi).symm
    refine inv_own (i := i) (o := some (.answered ⟨url, body⟩)) hinv rfl (.inr hkeep) ?_ ?_ (fun _ _ _ => ⟨rfl, rfl⟩)
      hserved rfl rfl rfl rfl fun ht => ⟨ht, fun n hn ho => absurd (hkeep.trans hn) ho⟩
    · rintro s ⟨⟩
      exact ⟨List.mem_cons_self, hinv.stages i _ hi⟩
    · obtain ⟨f, hf, hwhole⟩ := hinv.program
      exact ⟨f, hf, hwhole.mono (w := w) hserved fun _ hx => hx⟩
  | createTemp tmp hi hfree => exact inv_createTemp hinv hi hfree (List.nodup_cons.mp hnodup).1
  | @copy i d tmp fd chunk left hi =>
    obtain ⟨hd, hentry, f, hf, hcontent⟩ := hinv.stages i _ hi
    exact inv_modify hinv hi rfl rfl hentry ⟨hd, hentry, _, Dir.file_modify_self hentry hf,
      (List.append_assoc ..).trans hcontent⟩
  | @copied i d tmp fd hi =>
    obtain ⟨hd, hentry, f, hf, hcontent⟩ := hinv.stages i _ hi
    refine inv_setStage hinv (nameOf_eq hi).symm ?_
    rintro s ⟨⟩
    exact ⟨hd, hentry, f, hf, (List.append_nil _).symm.trans hcontent⟩
  | @chmod i d tmp fd hi =>
    obtain ⟨hd, hentry, f, hf, hcontent⟩ := hinv.stages i _ hi
    have hfile := Dir.file_modify_self (g := fun f => { f with mode := 0o755 }) hentry hf
    exact inv_modify hinv hi rfl rfl hentry ⟨hd, hentry, hcontent ▸ hfile⟩
  | @rename i j d tmp fd hi hsrc =>
    obtain ⟨hd, hentry, hf⟩ := hinv.stages i _ hi
    have hown : nameOf w i = some tmp := nameOf_eq hi
    refine inv_own (i := i) (o := some (.removing tmp)) hinv rfl (.inr hown.symm) ?_ ?_ ?_ (fun _ hx => hx) rfl rfl rfl
      rfl fun ht => ⟨ht, fun n hn ho => absurd (hown.symm.trans hn) ho⟩
    · rintro s ⟨⟩
      trivial
    · exact ⟨_, (Dir.file_rename hsrc).trans (if_pos rfl) |>.trans hf, .inr ⟨d, hd, rfl⟩⟩
    · intro n hne hn
      have hnt : n ≠ tmp := fun he => hn (he ▸ hown)
      exact ⟨(if_neg hne).trans (if_neg hnt), (Dir.file_rename hsrc).trans <| (if_neg hne).trans (if_neg hnt)⟩
  | @remove i tmp hi =>
    have hown : nameOf w i = some tmp := nameOf_eq hi
    have hne := hinv.temp_ne_exe hi rfl
    refine inv_own (i := i) (o := none) hinv rfl (.inl rfl) (fun _ h => absurd h (by simp)) ?_ ?_ (fun _ hx => hx) rfl
      rfl rfl rfl fun ht => ⟨ht, fun n hn _ => ?_⟩
    · obtain ⟨f, hf, hwhole⟩ := hinv.program
      exact ⟨f, Dir.file_remove.trans <| (if_neg hne.symm).trans hf, hwhole⟩
    · intro n _ hn
      have hnt : n ≠ tmp := fun he => hn (he ▸ hown)
      exact ⟨if_neg hnt, Dir.file_remove.trans (if_neg hnt)⟩
    · exact Dir.file_remove.trans (if_pos (Option.some.inj (hn.symm.trans hown)))
  | @removeFails i tmp hi =>
    exact inv_own (i := i) (o := none) hinv rfl (.inl rfl) (fun _ h => absurd h (by simp)) hinv.program
      (fun _ _ _ => ⟨rfl, rfl⟩) (fun _ hx => hx) rfl rfl rfl rfl fun ht => absurd ht (by simp)
  | @fail i s hi =>
    refine inv_setStage hinv ?_ fun x hx => ?_
    · rw [nameOf_eq hi]
      cases s.name <;> rfl
    · obtain ⟨tmp, -, rfl⟩ := Option.map_eq_some_iff.mp hx
      trivial
  | @restart f tidy hexe htidy =>
    obtain ⟨f', hf', hwhole⟩ := hinv.program
    obtain rfl := Option.some.inj (hexe.symm.trans hf')
    refine ⟨hinv.program, ⟨f, rfl, hwhole⟩, fun h => absurd rfl h, fun i s hi => absurd hi (by simp),
      fun i s tmp hi => absurd hi (by simp), fun i j s s' tmp hi => absurd hi (by simp), hinv.fresh, hinv.rest,
      fun ht n hn hfile => ?_⟩
    -- no update was in progress, so none had left a file
    obtain ⟨htidy₀, hidle⟩ := htidy.mp ht
    obtain ⟨i, s, hi, -⟩ := hinv.tidy htidy₀ n hn hfile
    exact absurd (hi.symm.trans (hidle i)) (by simp)

/-- The names drawn so far stay in their order. -/
theorem drawn_sublist (hstep : World.Step exe w w') : w.drawn.Sublist w'.drawn := by
  cases hstep with
  | createTemp tmp hi hfree => exact List.sublist_cons_self tmp w.drawn
  | _ => exact List.Sublist.refl _

/-- So every run keeps it. -/
theorem inv_steps (hrun : World.Steps exe w w') (hnodup : w'.drawn.Nodup) (hinv : Inv exe d₀ f₀ w) :
    Inv exe d₀ f₀ w' := by
  induction hrun with
  | refl => exact hinv
  | tail _ hstep ih => exact inv_step hstep hnodup (ih (hnodup.sublist (drawn_sublist hstep)))

/-- It holds when the agent starts from a file that is there. -/
theorem inv_start (hexe : d₀.file exe = some f₀) : Inv exe d₀ f₀ (World.start d₀ f₀.content) :=
  ⟨⟨f₀, hexe, .inl rfl⟩, ⟨f₀, rfl, .inl rfl⟩, fun h => absurd rfl h, fun i s hi => absurd hi (by simp [World.start]),
    fun i s tmp hi => absurd hi (by simp [World.start]), fun i j s s' tmp hi => absurd hi (by simp [World.start]),
    fun n hn => absurd hn (by simp [World.start]), fun _ _ _ => rfl, fun _ n hn => absurd hn (by simp [World.start])⟩

/-! ## Runs -/

/-- Wherever a run is looked at, the agent's file is there and is the installed one or a whole download that can be
    executed, the running program was in such a file, and no file that the directory had is touched. When no update is
    in progress, no restart has cut one off and no `os.Remove` has failed, nothing is left beside them. -/
theorem program_whole (exe : String) (d₀ : Dir UInt8) (f₀ : File UInt8) (w : World) (hexe : d₀.file exe = some f₀)
    (hrun : World.Steps exe (World.start d₀ f₀.content) w) (hnodup : w.drawn.Nodup) :
    (∃ f, w.dir.file exe = some f ∧ Whole f₀ w f) ∧ (∃ f, w.running = f.content ∧ Whole f₀ w f) ∧
      (∀ n f, n ≠ exe → d₀.file n = some f → w.dir.file n = some f) ∧
        (w.tidy = true → (∀ i, w.updates i = none) → ∀ n, n ≠ exe → w.dir.file n = d₀.file n) := by
  have hinv := inv_steps hrun hnodup (inv_start hexe)
  refine ⟨hinv.program, hinv.running, fun n f hne hf => ?_, fun ht hidle n hne => ?_⟩
  · refine (hinv.rest n hne fun hn => ?_).trans hf
    exact absurd (hf.symm.trans (hinv.fresh n hn).2) (by simp)
  · by_cases hn : n ∈ w.drawn
    · refine Eq.trans ?_ (hinv.fresh n hn).2.symm
      by_contra hfile
      obtain ⟨i, s, hi, -⟩ := hinv.tidy ht n hn hfile
      exact absurd (hi.symm.trans (hidle i)) (by simp)
    · exact hinv.rest n hne hn

/-- A directory with the agent alone. -/
def installed : Dir UInt8 where
  entries n := if n = "awg-nodeagent" then some 0 else none
  files _ := ⟨[1], 0o755⟩
  next := 1
  lt_next n i h := by
    split at h
    · obtain rfl := Option.some.inj h
      exact Nat.zero_lt_one
    · exact absurd h (by simp)
  own n m i h h' := by
    split at h
    · split at h'
      · rename_i hn hm
        exact hn.trans hm.symm
      · exact absurd h' (by simp)
    · exact absurd h (by simp)

/-- Two updates overlap, the second one's download breaks off, and the agent restarts onto the first. -/
theorem program_whole_restart : ∃ w : World, w.running = [2, 3] ∧ w.drawn = [".awg-nodeagent.2", ".awg-nodeagent.1"] ∧
    (∃ f, w.dir.file "awg-nodeagent" = some f ∧ Whole ⟨[1], 0o755⟩ w f) ∧
    ∀ n, n ≠ "awg-nodeagent" → w.dir.file n = none := by
  have hrun : World.Steps "awg-nodeagent" (World.start installed [1]) _ :=
    ((((((((((((((((Relation.ReflTransGen.refl
      ).tail (.poll "https://panel/agent")
      ).tail (.applyUpdate (i := 0) rfl (by decide))
      ).tail (.get (i := 0) [2, 3] rfl)
      ).tail (.createTemp (i := 0) ".awg-nodeagent.1" rfl rfl)
      ).tail (.copy (i := 0) [2] [3] rfl)
      ).tail (.applyUpdate (i := 1) rfl (by decide))
      ).tail (.get (i := 1) [4] rfl)
      ).tail (.createTemp (i := 1) ".awg-nodeagent.2" rfl rfl)
      ).tail (.copy (i := 0) [3] [] rfl)
      ).tail (.copied (i := 0) rfl)
      ).tail (.fail (i := 1) rfl)
      ).tail (.chmod (i := 0) rfl)
      ).tail (.rename (i := 0) rfl rfl)
      ).tail (.remove (i := 1) rfl)
      ).tail (.remove (i := 0) rfl)
      ).tail (.restart (f := ⟨[2, 3], 0o755⟩) true rfl
        ⟨fun _ => ⟨rfl, fun i => by rcases i with _ | _ | i <;> rfl⟩, fun _ => rfl⟩)
  obtain ⟨hprogram, -, -, hrest⟩ :=
    program_whole "awg-nodeagent" installed ⟨[1], 0o755⟩ _ rfl hrun (by decide)
  refine ⟨_, rfl, rfl, hprogram, fun n hn => (hrest rfl (fun _ => rfl) n hn).trans ?_⟩
  exact Dir.file_eq_none.mpr (if_neg hn)

end Update
end NodeAgent
end BeautyAwg
