import JobBundler.Proofs.Dispatch.Resolve

/-!
# The course of a dispatch

A dispatch is seen as what it asks of the world, one event after the other: it reads the manifest, looks for
the artifact, asks for a rebuild and hands a request to the host (`Step`). What it finds is left open at each
event, so others may change the workspace in between; `Undisturbed` says what it finds when they do not. Every
course is orderly, and a run of the dispatcher is one (`dispatch_orderly`).
-/

namespace JobBundler.Dispatcher

/-- What a dispatch asks of the world, with what it finds. -/
inductive Event where
  /-- The manifest is read, on the disk as it is then. -/
  | readManifest (d : Disk)
  | checkArtifact (file : Path) (d : Disk)
  | rebuild (answer : Except RebuildError Unit)
  | load (request : LoadRequest) (answer : Except HostError Outcome)

namespace Event

def isRebuild : Event → Bool
  | rebuild _ => true
  | _ => false

def request? : Event → Option LoadRequest
  | load request _ => some request
  | _ => none

end Event

/-- What a dispatch is about to do. -/
inductive Phase where
  | resolving (rebuilt : Bool)
  | checking (rebuilt : Bool) (r : Resolved)
  | rebuilding
  /-- The manifest is to be read again, for the mode. -/
  | reading (r : Resolved)
  | loading (r : Resolved) (mode : Option ManifestMode)
  | done (result : Except DispatchError (Option JobOutput))

/-- The id is checked before anything is asked. -/
def Phase.start (id : String) : Phase :=
  match JobId.parse id with
  | .ok _ => resolving false
  | .error e => done (.error (.invalidId e))

section
variable (p : Dispatcher) (id : String) (noBuild : Bool)

/-- One event of a dispatch, and what follows from it. -/
inductive Step : Phase → Event → Phase → Prop
  | resolved {rebuilt : Bool} {d : Disk} {r : Resolved} (h : resolve p.config id d = .ok r) :
    Step (.resolving rebuilt) (.readManifest d) (.checking rebuilt r)
  | unresolved {rebuilt : Bool} {d : Disk} {e : DispatchError} (h : resolve p.config id d = .error e) :
    Step (.resolving rebuilt) (.readManifest d) (.done (.error e))
  | present {rebuilt : Bool} {r : Resolved} {d : Disk} (h : d.isFile r.file = true) :
    Step (.checking rebuilt r) (.checkArtifact r.file d) (.reading r)
  | forbidden {r : Resolved} {d : Disk} (h : d.isFile r.file = false) (hno : noBuild = true) :
    Step (.checking false r) (.checkArtifact r.file d)
      (.done (.error (.missingArtifact id (p.config.displayArtifact r.artifactPath))))
  | absent {r : Resolved} {d : Disk} (h : d.isFile r.file = false) (hno : noBuild = false) :
    Step (.checking false r) (.checkArtifact r.file d) .rebuilding
  | stillMissing {r : Resolved} {d : Disk} (h : d.isFile r.file = false) :
    Step (.checking true r) (.checkArtifact r.file d)
      (.done (.error (.stillMissing id (p.config.displayArtifact r.artifactPath))))
  | rebuilt : Step .rebuilding (.rebuild (.ok ())) (.resolving true)
  | notRebuilt (e : RebuildError) : Step .rebuilding (.rebuild (.error e)) (.done (.error (.rebuild e)))
  | read {r : Resolved} {d : Disk} {entry : Option ManifestEntry}
      (h : manifestEntry p.config id d = .ok entry) :
    Step (.reading r) (.readManifest d) (.loading r (entry.map (·.mode)))
  | unread {r : Resolved} {d : Disk} {e : DispatchError} (h : manifestEntry p.config id d = .error e) :
    Step (.reading r) (.readManifest d) (.done (.error e))
  | loaded {r : Resolved} {mode : Option ManifestMode} (outcome : Outcome) :
    Step (.loading r mode) (.load ⟨r.file, id, mode, p.config.entryMethod⟩ (.ok outcome))
      (.done (p.conclude id r outcome))
  | notLoaded {r : Resolved} {mode : Option ManifestMode} (e : HostError) :
    Step (.loading r mode) (.load ⟨r.file, id, mode, p.config.entryMethod⟩ (.error e))
      (.done (.error (.host e)))

/-- What a dispatch has asked up to a phase, the first event first. -/
inductive Course : Phase → List Event → Prop
  | start : Course (.start id) []
  | step {phase next : Phase} {history : List Event} {event : Event} (h : Course phase history)
      (hstep : Step p id noBuild phase event next) : Course next (history ++ [event])

end

/-- How an event goes in a workspace that only rebuilds and the host change. -/
inductive Takes (p : Dispatcher) (journal : Journal) : Event → Journal → Prop
  | readManifest : Takes p journal (.readManifest journal.workspace.disk) journal
  | checkArtifact (file : Path) : Takes p journal (.checkArtifact file journal.workspace.disk) journal
  | rebuild : Takes p journal (.rebuild (p.rebuild.run journal.workspace).1)
      { journal with
        workspace := (p.rebuild.run journal.workspace).2
        rebuilds := journal.rebuilds + 1 }
  | load (request : LoadRequest) : Takes p journal (.load request ((p.host request).run journal.workspace).1)
      { journal with
        workspace := ((p.host request).run journal.workspace).2
        loads := journal.loads ++ [request] }

/-- How events go in a workspace that only rebuilds and the host change. -/
inductive Undisturbed (p : Dispatcher) (journal : Journal) : List Event → Journal → Prop
  | nil : Undisturbed p journal [] journal
  | snoc {history : List Event} {event : Event} {j j' : Journal} (h : Undisturbed p journal history j)
      (hevent : Takes p j event j') : Undisturbed p journal (history ++ [event]) j'

/-- What holds of resolutions and rebuilds in a dispatch that is done. -/
structure Prepares (c : Config) (id : String) (noBuild : Bool) (history : List Event) : Prop where
  /-- The first two events are a resolution and, if that succeeds, the check of its file. -/
  resolved : Name.isValid id = true → ∃ d after, history = .readManifest d :: after ∧
    ∀ r, resolve c id d = .ok r → ∃ d' after', after = .checkArtifact r.file d' :: after'
  rebuild_once : history.countP Event.isRebuild ≤ 1
  /-- There is a rebuild if the first resolution succeeds, its file is absent and a rebuild is not forbidden. -/
  rebuild_iff : (∃ answer, .rebuild answer ∈ history) ↔ ∃ d r d' after,
    history = .readManifest d :: .checkArtifact r.file d' :: after ∧ resolve c id d = .ok r ∧
      d'.isFile r.file = false ∧ noBuild = false

/-- What holds of the events of a dispatch that is done, in their order, and of its result. -/
structure Orderly (c : Config) (id : String) (noBuild : Bool) (history : List Event)
    (result : Except DispatchError (Option JobOutput)) : Prop
    extends Prepares c id noBuild history where
  /-- For a malformed id nothing is asked. -/
  refused : Name.isValid id = false → history = [] ∧ result = .error (.invalidId ⟨.jobId, id⟩)
  load_once : (history.filterMap Event.request?).length ≤ 1
  /-- Right before the host is asked the job is resolved, so after the rebuild if there was one, its file is
  found, and its mode is read. -/
  load {request : LoadRequest} {answer : Except HostError Outcome} (h : .load request answer ∈ history) :
    ∃ earlier d d' d'' r entry, history = earlier ++
        [.readManifest d, .checkArtifact request.artifact d', .readManifest d'', .load request answer] ∧
      resolve c id d = .ok r ∧ request.artifact = r.file ∧ d'.isFile request.artifact = true ∧
      manifestEntry c id d'' = .ok entry ∧ request.mode = entry.map (·.mode) ∧
      (Manifest.load c.manifestPath d'' = Manifest.load c.manifestPath d →
        request.mode = r.entry.map (·.mode)) ∧
      request.jobId = id ∧ request.entryMethod = c.entryMethod
  output_iff {output : Option JobOutput} :
    result = .ok output ↔ ∃ request, .load request (.ok (.completed output)) ∈ history

variable {p : Dispatcher} {c : Config} {id : String} {noBuild : Bool} {journal j j' : Journal}
  {history : List Event} {phase : Phase} {r : Resolved}

/-! ## What has been asked up to each phase -/

/-- A resolution and the check of its file. -/
inductive Looked (c : Config) (id : String) (r : Resolved) (present : Bool) : List Event → Prop
  | intro {d d' : Disk} (h : resolve c id d = .ok r) (hfile : d'.isFile r.file = present) :
    Looked c id r present [.readManifest d, .checkArtifact r.file d']

/-- What comes before the resolution that counts. -/
inductive Prepared (c : Config) (id : String) (noBuild : Bool) : Bool → List Event → Prop
  | first (hid : Name.isValid id = true) : Prepared c id noBuild false []
  | rebuilt {r : Resolved} {history : List Event} (h : Looked c id r false history)
      (hno : noBuild = false) : Prepared c id noBuild true (history ++ [.rebuild (.ok ())])

/-- What was found before the host is asked. -/
inductive Ready (c : Config) (id : String) (noBuild : Bool) (r : Resolved) : List Event → Prop
  | intro {rebuilt : Bool} {before look : List Event} (hbefore : Prepared c id noBuild rebuilt before)
      (hlook : Looked c id r true look) : Ready c id noBuild r (before ++ look)

/-- What a dispatch that is not done has asked. -/
def Phase.Follows (c : Config) (id : String) (noBuild : Bool) (history : List Event) : Phase → Prop
  | resolving rebuilt => Prepared c id noBuild rebuilt history
  | checking rebuilt r => ∃ before d, Prepared c id noBuild rebuilt before ∧ resolve c id d = .ok r ∧
      history = before ++ [.readManifest d]
  | rebuilding => (∃ r, Looked c id r false history) ∧ noBuild = false
  | reading r => Ready c id noBuild r history
  | loading r mode => ∃ before d entry, Ready c id noBuild r before ∧ manifestEntry c id d = .ok entry ∧
      mode = entry.map (·.mode) ∧ history = before ++ [.readManifest d]
  | done result => Orderly c id noBuild history result

theorem valid_of_resolve {d : Disk} (h : resolve c id d = .ok r) : Name.isValid id = true := by
  cases hid : Name.isValid id with
  | true => rfl
  | false =>
    unfold resolve JobId.parse at h
    rw [dif_neg (by simp [hid])] at h
    cases h

/-- The entry of a resolution is that of the manifest. -/
theorem manifestEntry_of_resolve {d : Disk} (h : resolve c id d = .ok r) :
    manifestEntry c id d = .ok r.entry := by
  obtain ⟨jobId, hparse⟩ : ∃ jobId, JobId.parse id = .ok jobId :=
    ⟨⟨id, valid_of_resolve h⟩, JobId.parse_eq_ok_iff.2 rfl⟩
  obtain rfl : jobId.text = id := JobId.parse_eq_ok_iff.1 hparse
  unfold resolve at h
  rw [hparse] at h
  cases hentry : manifestEntry c jobId.text d with
  | error e =>
    simp only [Except.mapError, bind, Except.bind, hentry] at h
    cases h
  | ok entry =>
    simp only [Except.mapError, bind, Except.bind, hentry] at h
    cases h
    rfl

theorem Prepared.valid {rebuilt : Bool} (h : Prepared c id noBuild rebuilt history) :
    Name.isValid id = true := by
  cases h with
  | first hid => exact hid
  | rebuilt h _ =>
    cases h with
    | intro h _ => exact valid_of_resolve h

/-- After the rebuild, or without one, a dispatch only has to end without a further rebuild. -/
theorem Prepared.prepares {rebuilt : Bool} {before after : List Event} {d : Disk}
    (h : Prepared c id noBuild rebuilt before) (hafter : ∀ event ∈ after, event.isRebuild = false)
    (hcheck : ∀ r, resolve c id d = .ok r → ∃ d' after', after = .checkArtifact r.file d' :: after' ∧
      (d'.isFile r.file = false → rebuilt = true ∨ noBuild = true)) :
    Prepares c id noBuild (before ++ .readManifest d :: after) := by
  have hcount : after.countP Event.isRebuild = 0 :=
    List.countP_eq_zero.2 fun event hevent => by simp [hafter event hevent]
  have hnot : ∀ answer, Event.rebuild answer ∉ after := fun answer hmem => by
    simpa [Event.isRebuild] using hafter _ hmem
  cases h with
  | first hid =>
    refine ⟨fun _ => ⟨d, after, rfl, fun r hr => ?_⟩, ?_, ?_⟩
    · obtain ⟨d', after', rfl, -⟩ := hcheck r hr
      exact ⟨d', after', rfl⟩
    · simp [Event.isRebuild, hcount]
    · constructor
      · rintro ⟨answer, hmem⟩
        simp [hnot] at hmem
      · rintro ⟨d₁, r, d', after', heq, hr, hfile, hno⟩
        obtain ⟨⟨⟩, rfl⟩ := List.cons.inj heq
        obtain ⟨d₂, after₂, heq, hfound⟩ := hcheck r hr
        cases heq
        rcases hfound hfile with hrebuilt | hforbidden
        · cases hrebuilt
        · rw [hno] at hforbidden
          cases hforbidden
  | @rebuilt r _ hlook hno =>
    cases hlook with
    | @intro d₁ d₂ hr hfile =>
      refine ⟨fun _ => ⟨d₁, _, rfl, fun r' hr' => ?_⟩, ?_, ?_⟩
      · obtain rfl := Except.ok.inj (hr.symm.trans hr')
        exact ⟨d₂, _, rfl⟩
      · simp [List.countP_cons, Event.isRebuild, hcount]
      · exact ⟨fun _ => ⟨d₁, r, d₂, _, rfl, hr, hfile, hno⟩, fun _ => ⟨.ok (), by simp⟩⟩

theorem Prepared.prepares_of_resolve {rebuilt : Bool} {before after : List Event} {d d' : Disk}
    (h : Prepared c id noBuild rebuilt before) (hr : resolve c id d = .ok r)
    (hfound : d'.isFile r.file = false → rebuilt = true ∨ noBuild = true)
    (hafter : ∀ event ∈ after, event.isRebuild = false) :
    Prepares c id noBuild (before ++ .readManifest d :: .checkArtifact r.file d' :: after) := by
  refine h.prepares (by simpa [Event.isRebuild] using hafter) fun r' hr' => ?_
  obtain rfl := Except.ok.inj (hr.symm.trans hr')
  exact ⟨d', after, rfl, hfound⟩

/-- A dispatch that ends before the host is asked has failed. -/
theorem Prepares.orderly_of_error (h : Prepares c id noBuild history) (hid : Name.isValid id = true)
    (hload : ∀ event ∈ history, event.request? = none) (e : DispatchError) :
    Orderly c id noBuild history (.error e) := by
  have hnot : ∀ request answer, Event.load request answer ∉ history := fun request answer hmem => by
    simpa [Event.request?] using hload _ hmem
  refine { h with refused := ?_, load_once := ?_, load := ?_, output_iff := ?_ }
  · rw [hid]
    exact nofun
  · rw [List.filterMap_eq_nil_iff.2 hload]
    exact Nat.zero_le 1
  · exact fun hmem => absurd hmem (hnot _ _)
  · exact ⟨nofun, fun ⟨_, hmem⟩ => absurd hmem (hnot _ _)⟩

theorem Prepared.request?_eq_none {rebuilt : Bool} (h : Prepared c id noBuild rebuilt history) :
    ∀ event ∈ history, event.request? = none := by
  cases h with
  | first => exact nofun
  | rebuilt h _ =>
    cases h
    simp [Event.request?]

/-- A dispatch that finds no file, or has no mode to load it with, has failed. -/
theorem Prepared.orderly_of_resolve {rebuilt : Bool} {before after : List Event} {d d' : Disk}
    (h : Prepared c id noBuild rebuilt before) (hr : resolve c id d = .ok r)
    (hfound : d'.isFile r.file = false → rebuilt = true ∨ noBuild = true)
    (hafter : ∀ event ∈ after, event.isRebuild = false ∧ event.request? = none) (e : DispatchError) :
    Orderly c id noBuild (before ++ .readManifest d :: .checkArtifact r.file d' :: after) (.error e) := by
  have hprepares := h.prepares_of_resolve hr hfound fun event hevent => (hafter event hevent).1
  refine hprepares.orderly_of_error h.valid (fun event hevent => ?_) e
  rcases List.mem_append.1 hevent with hevent | hevent
  · exact h.request?_eq_none event hevent
  · rcases List.mem_cons.1 hevent with rfl | hevent
    · rfl
    · rcases List.mem_cons.1 hevent with rfl | hevent
      · rfl
      · exact (hafter event hevent).2

/-- A dispatch that asks the host has its result from there. -/
theorem Ready.orderly_of_load {d : Disk} {entry : Option ManifestEntry} {request : LoadRequest}
    {answer : Except HostError Outcome} {result : Except DispatchError (Option JobOutput)}
    (h : Ready c id noBuild r history) (hentry : manifestEntry c id d = .ok entry)
    (hrequest : request = ⟨r.file, id, entry.map (·.mode), c.entryMethod⟩)
    (hresult : ∀ output, result = .ok output ↔ answer = .ok (.completed output)) :
    Orderly c id noBuild (history ++ [.readManifest d] ++ [.load request answer]) result := by
  cases h with
  | @intro _ before _ hbefore hlook =>
  cases hlook with
  | @intro d₁ d₂ hr hfile =>
    have hno : ∀ request answer, Event.load request answer ∉ before := fun _ _ hmem => by
      simpa [Event.request?] using hbefore.request?_eq_none _ hmem
    have hmem : ∀ {request' answer'}, Event.load request' answer' ∈
        before ++ [.readManifest d₁, .checkArtifact r.file d₂] ++ [.readManifest d] ++
          [.load request answer] → request' = request ∧ answer' = answer := by
      simp [hno]
    have hprepares : Prepares c id noBuild (before ++ .readManifest d₁ ::
        .checkArtifact r.file d₂ :: [.readManifest d, .load request answer]) :=
      hbefore.prepares_of_resolve hr (by simp [hfile]) (by simp [Event.isRebuild])
    have hhistory : before ++ [.readManifest d₁, .checkArtifact r.file d₂] ++ [.readManifest d] ++
        [.load request answer] = before ++ [.readManifest d₁, .checkArtifact r.file d₂, .readManifest d,
          .load request answer] := by
      simp
    refine { toPrepares := hhistory ▸ hprepares, refused := ?_, load_once := ?_, load := ?_, output_iff := ?_ }
    · rw [hbefore.valid]
      exact nofun
    · rw [hhistory, List.filterMap_append, List.filterMap_eq_nil_iff.2 hbefore.request?_eq_none]
      exact Nat.le_refl 1
    · intro request' answer' h
      obtain ⟨rfl, rfl⟩ := hmem h
      refine ⟨before, d₁, d₂, d, r, entry, ?_⟩
      subst hrequest
      refine ⟨hhistory, hr, rfl, hfile, hentry, rfl, fun hsame => ?_, rfl, rfl⟩
      have hagain := manifestEntry_of_resolve hr
      unfold manifestEntry at hagain hentry
      rw [hsame, hagain] at hentry
      cases hentry
      rfl
    · intro output
      rw [hresult output]
      constructor
      · rintro rfl
        exact ⟨request, by simp⟩
      · rintro ⟨request', h⟩
        exact (hmem h).2.symm

/-! ## Every course is orderly -/

theorem Phase.follows_start : (start id).Follows c id noBuild [] := by
  unfold start JobId.parse
  by_cases hid : Name.isValid id = true
  · rw [dif_pos hid]
    exact .first hid
  · rw [dif_neg hid]
    exact
      { resolved := fun h => absurd h hid
        rebuild_once := Nat.zero_le 1
        rebuild_iff := by simp
        refused := fun _ => ⟨rfl, rfl⟩
        load_once := Nat.zero_le 1
        load := nofun
        output_iff := by simp }

theorem Phase.Follows.step {next : Phase} {event : Event} (h : phase.Follows p.config id noBuild history)
    (hstep : Step p id noBuild phase event next) :
    next.Follows p.config id noBuild (history ++ [event]) := by
  cases hstep with
  | resolved hr => exact ⟨history, _, h, hr, rfl⟩
  | @unresolved rebuilt d e hd =>
    have hprepares : Prepares p.config id noBuild (history ++ [.readManifest d]) :=
      h.prepares nofun fun r hr => by
        rw [hd] at hr
        cases hr
    refine hprepares.orderly_of_error h.valid ?_ e
    simpa [or_imp, forall_and, Event.request?] using h.request?_eq_none
  | present hfile =>
    obtain ⟨before, d, hbefore, hr, rfl⟩ := h
    rw [List.append_assoc]
    exact .intro hbefore (.intro hr hfile)
  | forbidden hfile hno =>
    obtain ⟨before, d, hbefore, hr, rfl⟩ := h
    rw [List.append_assoc]
    exact hbefore.orderly_of_resolve hr (fun _ => .inr hno) (by simp) _
  | absent hfile hno =>
    obtain ⟨before, d, hbefore, hr, rfl⟩ := h
    cases hbefore with
    | first => exact ⟨⟨_, .intro hr hfile⟩, hno⟩
  | stillMissing hfile =>
    obtain ⟨before, d, hbefore, hr, rfl⟩ := h
    rw [List.append_assoc]
    exact hbefore.orderly_of_resolve hr (fun _ => .inl rfl) (by simp) _
  | rebuilt =>
    obtain ⟨⟨r, hlook⟩, hno⟩ := h
    exact .rebuilt hlook hno
  | notRebuilt e =>
    obtain ⟨⟨r, hlook⟩, hno⟩ := h
    cases hlook with
    | @intro d d' hr hfile =>
      have hprepares : Prepares p.config id noBuild
          [.readManifest d, .checkArtifact r.file d', .rebuild (.error e)] := by
        refine ⟨fun _ => ⟨d, _, rfl, fun r' hr' => ?_⟩, by simp [List.countP_cons, Event.isRebuild], ?_⟩
        · obtain rfl := Except.ok.inj (hr.symm.trans hr')
          exact ⟨d', _, rfl⟩
        · exact ⟨fun _ => ⟨d, r, d', _, rfl, hr, hfile, hno⟩, fun _ => ⟨.error e, by simp⟩⟩
      refine hprepares.orderly_of_error (valid_of_resolve hr) ?_ _
      simp [Event.request?]
  | read hentry => exact ⟨history, _, _, h, hentry, rfl, rfl⟩
  | @unread r _ e hentry =>
    cases h with
    | @intro rebuilt before _ hbefore hlook =>
    cases hlook with
    | intro hr hfile =>
      rw [List.append_assoc]
      exact hbefore.orderly_of_resolve hr (by simp [hfile]) (by simp [Event.isRebuild, Event.request?]) e
  | @loaded r mode outcome =>
    obtain ⟨before, d, entry, hready, hentry, rfl, rfl⟩ := h
    refine hready.orderly_of_load hentry rfl fun output => ?_
    cases outcome <;> simp [conclude]
  | @notLoaded r mode e =>
    obtain ⟨before, d, entry, hready, hentry, rfl, rfl⟩ := h
    exact hready.orderly_of_load hentry rfl fun output => by simp

theorem Course.follows (h : Course p id noBuild phase history) :
    phase.Follows p.config id noBuild history := by
  induction h with
  | start => exact Phase.follows_start
  | step _ hstep ih => exact ih.step hstep

/-! ## A run of the dispatcher is a course -/

theorem Undisturbed.rebuilds (h : Undisturbed p journal history j) :
    j.rebuilds = journal.rebuilds + history.countP Event.isRebuild := by
  induction h with
  | nil => rfl
  | snoc _ hevent ih => cases hevent <;> simp [ih, Event.isRebuild, Nat.add_assoc]

theorem Undisturbed.loads (h : Undisturbed p journal history j) :
    j.loads = journal.loads ++ history.filterMap Event.request? := by
  induction h with
  | nil => simp
  | snoc _ hevent ih => cases hevent <;> simp [ih, Event.request?]

/-- A course of a dispatch in a workspace that only rebuilds and the host change. -/
structure Plays (p : Dispatcher) (id : String) (noBuild : Bool) (journal : Journal) (phase : Phase)
    (history : List Event) (j : Journal) : Prop where
  course : Course p id noBuild phase history
  undisturbed : Undisturbed p journal history j

theorem Plays.step {next : Phase} {event : Event} (h : Plays p id noBuild journal phase history j)
    (hstep : Step p id noBuild phase event next) (hevent : Takes p j event j') :
    Plays p id noBuild journal next (history ++ [event]) j' :=
  ⟨h.course.step hstep, h.undisturbed.snoc hevent⟩

/-- The phase after the artifact was looked for, and built if need be. -/
def Phase.ofEnsured : Except DispatchError Resolved → Phase
  | .ok r => reading r
  | .error e => done (.error e)

theorem run_look_bind {α : Type} (f : Resolved × Bool → Action α) (j : Journal) :
    (view (look p.config id) >>= f).run j =
      match resolve p.config id j.workspace.disk with
      | .ok r => (f (r, j.workspace.disk.isFile r.file)).run j
      | .error e => (.error e, j) := by
  rw [run_bind, run_view]
  unfold look
  cases resolve p.config id j.workspace.disk <;> rfl

theorem run_askRebuild (j : Journal) :
    p.askRebuild.run j = ((p.rebuild.run j.workspace).1.mapError .rebuild,
      { j with workspace := (p.rebuild.run j.workspace).2, rebuilds := j.rebuilds + 1 }) :=
  run_work p.rebuild .rebuild { j with rebuilds := j.rebuilds + 1 }

theorem run_askHost (request : LoadRequest) (j : Journal) :
    (p.askHost request).run j = (((p.host request).run j.workspace).1.mapError .host,
      { j with workspace := ((p.host request).run j.workspace).2, loads := j.loads ++ [request] }) :=
  run_work (p.host request) .host { j with loads := j.loads ++ [request] }

theorem Plays.ensureBuilt_again (h : Plays p id noBuild journal (.resolving true) history j)
    {result : Except DispatchError Resolved × Journal}
    (hresult : ((do
      let (r, present) ← view (look p.config id)
      if present then return r
      throw (.stillMissing id (p.config.displayArtifact r.artifactPath)) : Action Resolved).run j) = result) :
    ∃ after, Plays p id noBuild journal (.ofEnsured result.1) after result.2 := by
  rw [run_look_bind] at hresult
  cases hr : resolve p.config id j.workspace.disk with
  | error e =>
    rw [hr] at hresult
    subst hresult
    exact ⟨_, h.step (.unresolved hr) .readManifest⟩
  | ok r =>
    have hcheck := h.step (.resolved hr) .readManifest
    rw [hr] at hresult
    cases hfile : j.workspace.disk.isFile r.file with
    | true =>
      simp only [hfile] at hresult
      subst hresult
      exact ⟨_, hcheck.step (.present hfile) (.checkArtifact r.file)⟩
    | false =>
      simp only [hfile] at hresult
      subst hresult
      exact ⟨_, hcheck.step (.stillMissing hfile) (.checkArtifact r.file)⟩

theorem exists_plays_ensureBuilt (p : Dispatcher) (id : String) (noBuild : Bool) (journal : Journal)
    {result : Except DispatchError Resolved × Journal}
    (hresult : (p.ensureBuilt id noBuild).run journal = result) :
    ∃ history, Plays p id noBuild journal (.ofEnsured result.1) history result.2 := by
  unfold ensureBuilt at hresult
  rw [run_look_bind] at hresult
  have hstart : Plays p id noBuild journal (.start id) [] journal := ⟨.start, .nil⟩
  unfold Phase.start at hstart
  cases hparse : JobId.parse id with
  | error e =>
    rw [hparse] at hstart
    unfold resolve at hresult
    rw [hparse] at hresult
    subst hresult
    exact ⟨[], hstart⟩
  | ok jobId =>
    rw [hparse] at hstart
    cases hr : resolve p.config id journal.workspace.disk with
    | error e =>
      rw [hr] at hresult
      subst hresult
      exact ⟨_, hstart.step (.unresolved hr) .readManifest⟩
    | ok r =>
      have hcheck := hstart.step (.resolved hr) .readManifest
      rw [hr] at hresult
      cases hfile : journal.workspace.disk.isFile r.file with
      | true =>
        simp only [hfile] at hresult
        subst hresult
        exact ⟨_, hcheck.step (.present hfile) (.checkArtifact r.file)⟩
      | false =>
        simp only [hfile] at hresult
        cases noBuild with
        | true =>
          subst hresult
          exact ⟨_, hcheck.step (.forbidden hfile rfl) (.checkArtifact r.file)⟩
        | false =>
          have habsent := hcheck.step (.absent hfile rfl) (.checkArtifact r.file)
          have hevent : Takes p journal _ _ := .rebuild
          simp only [Bool.false_eq_true, if_false] at hresult
          rw [run_bind, run_askRebuild] at hresult
          cases hrebuild : (p.rebuild.run journal.workspace).1 with
          | error e =>
            rw [hrebuild] at hresult hevent
            subst hresult
            exact ⟨_, habsent.step (.notRebuilt e) hevent⟩
          | ok =>
            rw [hrebuild] at hresult hevent
            exact (habsent.step .rebuilt hevent).ensureBuilt_again hresult

theorem exists_plays_dispatch (p : Dispatcher) (id : String) (noBuild : Bool) (journal : Journal)
    {result : Except DispatchError (Option JobOutput) × Journal}
    (hresult : (p.dispatch id noBuild).run journal = result) :
    ∃ history, Plays p id noBuild journal (.done result.1) history result.2 := by
  unfold dispatch at hresult
  rw [run_bind] at hresult
  obtain ⟨history, hbuilt⟩ := exists_plays_ensureBuilt p id noBuild journal rfl
  rcases hrun : (p.ensureBuilt id noBuild).run journal with ⟨e | r, j⟩
  · rw [hrun] at hresult hbuilt
    subst hresult
    exact ⟨history, hbuilt⟩
  · rw [hrun] at hresult hbuilt
    simp only [run_bind, run_view] at hresult
    cases hentry : manifestEntry p.config id j.workspace.disk with
    | error e =>
      rw [hentry] at hresult
      subst hresult
      exact ⟨_, hbuilt.step (.unread hentry) .readManifest⟩
    | ok entry =>
      have hread := hbuilt.step (.read hentry) .readManifest
      have hevent : Takes p j _ _ := .load ⟨r.file, id, entry.map (·.mode), p.config.entryMethod⟩
      simp only [hentry, run_askHost] at hresult
      rcases hload : (p.host ⟨r.file, id, entry.map (·.mode), p.config.entryMethod⟩).run j.workspace
        with ⟨e | outcome, w⟩
      · rw [hload] at hresult hevent
        subst hresult
        exact ⟨_, hread.step (.notLoaded e) hevent⟩
      · rw [hload] at hresult hevent
        subst hresult
        exact ⟨_, hread.step (.loaded outcome) hevent⟩

/-- What a dispatch asks comes in order, whatever it finds and is told, and however others change the
workspace meanwhile. A run of the dispatcher is such a course. -/
theorem dispatch_orderly (p : Dispatcher) (id : String) (noBuild : Bool) :
    (∀ result history, Course p id noBuild (.done result) history →
      Orderly p.config id noBuild history result) ∧
    ∀ journal result journal', (p.dispatch id noBuild).run journal = (result, journal') →
      ∃ history, Course p id noBuild (.done result) history ∧ Undisturbed p journal history journal' ∧
        journal'.rebuilds = journal.rebuilds + history.countP Event.isRebuild ∧
        journal'.loads = journal.loads ++ history.filterMap Event.request? := by
  refine ⟨fun result history h => h.follows, fun journal result journal' h => ?_⟩
  obtain ⟨history, hcourse, hundisturbed⟩ := exists_plays_dispatch p id noBuild journal h
  exact ⟨history, hcourse, hundisturbed, hundisturbed.rebuilds, hundisturbed.loads⟩

/-- A job that is built and then loaded. -/
theorem rebuiltJob_orderly :
    let p : Dispatcher :=
      { config := { pattern := "a.ts" }
        host := fun _ => return .completed (some (.json "1"))
        rebuild := .writing [(⟨"dist/jobs/A.mjs"⟩, "")] }
    let journal : Journal := { workspace := { disk := .bare ["w"] } }
    ∃ history journal', Course p "A" false (.done (.ok (some (.json "1")))) history ∧
      Undisturbed p journal history journal' ∧ journal'.rebuilds = 1 ∧
      journal'.loads.map (·.jobId) = ["A"] ∧
      Orderly p.config "A" false history (.ok (some (.json "1"))) := by
  intro p journal
  have hresult : ((p.dispatch "A" false).run journal).1.toOption = some (some (.json "1")) := by
    decide +kernel
  have hjournal : ((p.dispatch "A" false).run journal).2.rebuilds = 1 ∧
      ((p.dispatch "A" false).run journal).2.loads.map (·.jobId) = ["A"] := by
    decide +kernel
  obtain ⟨horderly, hruns⟩ := dispatch_orderly p "A" false
  rcases hrun : (p.dispatch "A" false).run journal with ⟨e | output, journal'⟩
  · rw [hrun] at hresult
    cases hresult
  · rw [hrun] at hresult hjournal
    obtain rfl : output = some (.json "1") := Option.some.inj hresult
    obtain ⟨history, hcourse, hundisturbed, -, -⟩ := hruns journal _ _ hrun
    exact ⟨history, journal', hcourse, hundisturbed, hjournal.1, hjournal.2, horderly _ _ hcourse⟩

end JobBundler.Dispatcher
