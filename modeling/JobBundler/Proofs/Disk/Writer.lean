import JobBundler.Proofs.Disk.Beside
import Mathlib.Logic.Relation

/-!
# Writers that replace a file

A writer makes directories, creates the temporary file, fills it piece by piece, waits until it is safe, and
renames it; any of this may fail, and then the temporary file is removed (`Advances`). What a step does to the
disk is one of three things (`Effect`), and what is known of the temporary file at each stage is kept by all of
them (`Advances.sound`). A replacement that is performed is a run of such steps (`exists_leads_perform`).
-/

namespace JobBundler

/-! ## Bytes -/

namespace Content

theorem toList_loop (bytes : ByteArray) (i : Nat) (r : List UInt8) :
    ByteArray.toList.loop bytes i r = r.reverse ++ bytes.data.toList.drop i := by
  induction h : bytes.size - i generalizing i r with
  | zero =>
    have hle : bytes.data.toList.length ≤ i := by
      rw [Array.length_toList]
      exact Nat.le_of_sub_eq_zero h
    rw [ByteArray.toList.loop, if_neg (by omega), List.drop_eq_nil_of_le hle, List.append_nil]
  | succ n ih =>
    have hsize : i < bytes.size := by omega
    have hlt : i < bytes.data.toList.length := by
      rw [Array.length_toList]
      exact hsize
    have hget : bytes.get! i = bytes.data.toList[i] := by
      rw [ByteArray.get!, getElem!_pos bytes.data i hsize, Array.getElem_toList]
    rw [ByteArray.toList.loop, if_pos hsize, ih (i + 1) (bytes.get! i :: r) (by omega),
      List.drop_eq_getElem_cons hlt, hget]
    simp

/-- The bytes of the content, in a list. -/
def toList (c : Content) : List UInt8 :=
  c.bytes.data.toList

/-- The content that is made of the bytes in a list. -/
def ofList (bytes : List UInt8) : Content :=
  .ofBytes ⟨bytes.toArray⟩

theorem toList_ofList (bytes : List UInt8) : (ofList bytes).toList = bytes := by
  unfold ofList ofBytes String.fromUTF8?
  split
  · rename_i s hs
    split at hs
    · cases hs
      rfl
    · cases hs
  · have hloop := toList_loop ⟨bytes.toArray⟩ 0 []
    simpa [toList, Content.bytes, ByteArray.toList] using hloop

theorem ofList_toUTF8 (text : String) : ofList text.toUTF8.data.toList = .text text := by
  have hvalid : ByteArray.IsValidUTF8 ⟨text.toUTF8.data.toList.toArray⟩ := text.isValidUTF8
  unfold ofList ofBytes String.fromUTF8?
  rw [dif_pos hvalid]
  rfl

/-- The content with bytes written over it from an offset on; what was missing before the offset is zero. -/
def overwrite (c : Content) (offset : Nat) (bytes : List UInt8) : Content :=
  ofList ((c.toList ++ List.replicate (offset - c.toList.length) 0).take offset ++ bytes ++
    c.toList.drop (offset + bytes.length))

/-- Bytes that are written after the ones that are there are put at the end. -/
theorem overwrite_ofList (front bytes : List UInt8) :
    (ofList front).overwrite front.length bytes = ofList (front ++ bytes) := by
  rw [overwrite, toList_ofList, List.drop_eq_nil_of_le (by omega)]
  simp

end Content

namespace Disk

variable {d d' d₀ : Disk} {p q : Path} {wd l : Location}

/-! ## Operations on the temporary file -/

theorem nodeAt_of_removeFile (h : removeFile p d = .ok d') : ∃ f, d.nodeAt p = .ok (.file f) := by
  unfold removeFile at h
  cases hn : d.nodeAt p with
  | error e => rw [hn] at h; cases h
  | ok n =>
    cases n with
    | directory => rw [hn] at h; cases h
    | file f => exact ⟨f, rfl⟩

theorem isFile_of_removeFile_error {e : FileError} (h : removeFile p d = .error e) : d.isFile p = false := by
  rw [Bool.eq_false_iff]
  intro hp
  obtain ⟨f, hf⟩ := isFile_iff.1 hp
  unfold removeFile at h
  rw [hf, (nodeAt_eq_file_iff.1 hf).1] at h
  cases h

theorem nodeAt_of_renameFile (h : renameFile p q d = .ok d') :
    (∃ f, d.nodeAt p = .ok (.file f)) ∧ ending q = .name := by
  unfold renameFile at h
  cases hl : d.locate p with
  | error e => rw [hl] at h; cases h
  | ok l =>
    cases hm : d.locate q with
    | error e => rw [hl, hm] at h; cases h
    | ok m =>
      rw [hl, hm] at h
      simp only [bind, Except.bind] at h
      cases hn : d.nodeAt p with
      | error e => cases hq : ending q <;> (rw [hq, hn] at h; cases h)
      | ok n =>
        cases n with
        | directory => cases hq : ending q <;> (rw [hq, hn] at h; cases h)
        | file f =>
          refine ⟨⟨f, rfl⟩, ?_⟩
          cases hq : ending q with
          | name => rfl
          | dots => rw [hq] at h; cases h
          | separator =>
            rw [hq, hn] at h
            simp only [if_true] at h
            cases h

theorem IsTree.node?_below_file {f : File} {m : Location} (hd : d.IsTree) (hf : d.node? m = some (.file f))
    (hml : m <+: l) (hne : l ≠ m) : d.node? l = none := by
  cases hl : d.node? l with
  | none => rfl
  | some n =>
    have hdir := hd.node?_above hl hml hne.symm
    rw [hf] at hdir
    cases hdir

theorem IsTree.node?_remove_file {f : File} {m : Location} (hd : d.IsTree)
    (hf : d.node? m = some (.file f)) (l : Location) :
    (d.remove m).node? l = if l = m then none else d.node? l := by
  have hne : m ≠ [] := ne_nil_of_ne_directory (d := d) (by simp [hf])
  by_cases hml : m <+: l
  · have hl : l ≠ [] := by
      rintro rfl
      exact hne (List.prefix_nil.1 hml)
    rw [node?_remove_below hml hl]
    split
    · rfl
    · rename_i hlm
      exact (hd.node?_below_file hf hml hlm).symm
  · rw [node?_remove_of_not_below hml, if_neg]
    rintro rfl
    exact hml List.prefix_rfl

/-- Puts bytes into an open file, which is found at the location unless it has no name any more. -/
def writeAt (d : Disk) (file : Option Location) (offset : Nat) (bytes : List UInt8) : Disk :=
  match file with
  | none => d
  | some l =>
    match d.node? l with
    | some (.file f) => d.put l (.file { f with content := f.content.overwrite offset bytes })
    | _ => d

theorem writeAt_of_file {f : File} (hf : d.node? l = some (.file f)) (offset : Nat) (bytes : List UInt8) :
    d.writeAt (some l) offset bytes =
      d.put l (.file { f with content := f.content.overwrite offset bytes }) := by
  rw [writeAt, hf]

/-! ## Stages and steps -/

namespace Replacement

/-- How far a writer is. -/
inductive Stage where
  /-- Directories are made above the target. -/
  | preparing
  /-- The temporary file is open, with as many bytes written to it. -/
  | filling (file : Option Location) (size : Nat)
  | renaming
  /-- The temporary file is to be removed, which may have been made by this writer. -/
  | failing (made : Bool) (e : FileError)
  | done (made : Bool) (result : Except FileError Unit)

/-- Where an open file is found after a step; nowhere, if it has lost its name. -/
abbrev Displacement :=
  Location → Option Location

namespace Displacement

def renamed (source target : Location) : Displacement := fun l =>
  if l = source then some target else if l = target then none else some l

def removed (m : Location) : Displacement := fun l =>
  if l = m then none else some l

end Displacement

/-- The bytes of the new text. -/
def bytes (r : Replacement) : List UInt8 :=
  r.text.toUTF8.data.toList

/-- The steps of a writer, with what they do to the disk and to open files. Each may fail with any error. -/
inductive Advances (r : Replacement) : Stage → Disk → Displacement → Stage → Disk → Prop
  | makeDir {parent p : Path} {d d' : Disk} (hparent : r.target.parent? = some parent)
      (hp : p ∈ ancestors parent) (hne : p.text ≠ "") (h : makeDir p d = .ok d') :
    Advances r .preparing d some .preparing d'
  | notPrepared (d : Disk) (e : FileError) : Advances r .preparing d some (.done false (.error e)) d
  | create {d d' : Disk} (h : write r.temporary (.text "") d = .ok d') :
    Advances r .preparing d some (.filling (some (destination d.workingDir r.temporary)) 0) d'
  | notCreated (d : Disk) (e : FileError) : Advances r .preparing d some (.failing false e) d
  | fill (d : Disk) (file : Option Location) {size n : Nat} (h : size + n ≤ r.bytes.length) :
    Advances r (.filling file size) d some (.filling file (size + n))
      (d.writeAt file size ((r.bytes.drop size).take n))
  | sync (d : Disk) (file : Option Location) :
    Advances r (.filling file r.bytes.length) d some .renaming d
  | notFilled (d : Disk) (file : Option Location) (size : Nat) (e : FileError) :
    Advances r (.filling file size) d some (.failing true e) d
  | rename {d d' : Disk} (h : renameFile r.temporary r.target d = .ok d') :
    Advances r .renaming d (.renamed (destination d.workingDir r.temporary) (destination d.workingDir r.target))
      (.done true (.ok ())) d'
  | notRenamed (d : Disk) (e : FileError) : Advances r .renaming d some (.failing true e) d
  | remove {d d' : Disk} (made : Bool) (e : FileError) (h : removeFile r.temporary d = .ok d') :
    Advances r (.failing made e) d (.removed (destination d.workingDir r.temporary)) (.done made (.error e)) d'
  | notRemoved {d : Disk} (made : Bool) (e : FileError) (h : d.isFile r.temporary = false) :
    Advances r (.failing made e) d some (.done made (.error e)) d

variable {r : Replacement} {s s' : Stage} {moves : Displacement}

/-- Where the target is. -/
abbrev targetAt (r : Replacement) (d : Disk) : Location :=
  destination d.workingDir r.target

/-- Where the temporary file is. -/
abbrev temporaryAt (r : Replacement) (d : Disk) : Location :=
  destination d.workingDir r.temporary

/-- The temporary path leads to where its file is. -/
def Opened (r : Replacement) (d : Disk) : Prop :=
  d.locate r.temporary = .ok (r.temporaryAt d) ∧ ending r.temporary = .name

/-- The temporary path is beside that of the target, if anything can be written there at all. -/
def IsApart (r : Replacement) : Prop :=
  ending r.temporary = .name → Nonempty (Beside r.target r.temporary)

/-- What is known of the files of a writer that no other one disturbs. -/
def Sound (r : Replacement) (d : Disk) : Stage → Prop
  | .preparing => True
  | .filling file size => r.Opened d ∧ file = some (r.temporaryAt d) ∧ size ≤ r.bytes.length ∧
      Holds (.ofList (r.bytes.take size)) (d.node? (r.temporaryAt d))
  | .renaming => r.Opened d ∧ Holds (.text r.text) (d.node? (r.temporaryAt d))
  | .failing made _ => made = true → r.Opened d
  | .done _ (.ok _) => d.readText r.target = .ok r.text ∧ Holds (.text r.text) (d.node? (r.targetAt d)) ∧
      d.nodeAt r.temporary = .error .notFound ∧ d.node? (r.temporaryAt d) = none
  | .done made (.error _) => made = true →
      d.isFile r.temporary = false ∧ ∀ f, d.node? (r.temporaryAt d) ≠ some (.file f)

/-- What the files of such a writer hold, whatever the disk is like. -/
def Fills (r : Replacement) (d : Disk) : Stage → Prop
  | .filling file size => file = some (r.temporaryAt d) ∧ size ≤ r.bytes.length ∧
      Holds (.ofList (r.bytes.take size)) (d.node? (r.temporaryAt d))
  | .renaming => Holds (.text r.text) (d.node? (r.temporaryAt d))
  | .done _ (.ok _) => Holds (.text r.text) (d.node? (r.targetAt d))
  | _ => True

theorem Sound.fills : ∀ {s : Stage}, r.Sound d s → r.Fills d s
  | .filling _ _, h | .renaming, h => h.2
  | .done _ (.ok _), h => h.2.1
  | .preparing, _ | .failing _ _, _ | .done _ (.error _), _ => trivial

/-! ## What a step does -/

/-- The temporary file has been renamed. -/
structure Renamed (r : Replacement) (d d' : Disk) (f : File) : Prop where
  opened : r.Opened d
  temporary : d.node? (r.temporaryAt d) = some (.file f)
  locate : d.locate r.target = .ok (r.targetAt d)
  ending : ending r.target = .name
  target : d.node? (r.targetAt d) ≠ some .directory
  node? (l : Location) : d'.node? l =
    if l = r.targetAt d then some (.file f) else if l = r.temporaryAt d then none else d.node? l

theorem exists_renamed (h : renameFile r.temporary r.target d = .ok d') (hd : d.IsTree) (hr : r.IsApart) :
    ∃ f, r.Renamed d d' f := by
  obtain ⟨⟨f, hf⟩, hname⟩ := nodeAt_of_renameFile h
  obtain ⟨hlocate, hending, hnode⟩ := nodeAt_eq_file_iff.1 hf
  obtain ⟨beside⟩ := hr hending
  obtain ⟨g, hg, ⟨htarget, -, hdir⟩, rfl⟩ := renameFile_eq_ok h
  obtain rfl : f = g := by simpa [hnode] using hg
  refine ⟨f, ⟨hlocate, hending⟩, hnode, htarget, hname, hdir, fun l => ?_⟩
  rw [if_neg beside.destination_ne, node?_put (ne_nil_of_ne_directory hdir), hd.node?_remove_file hnode]

/-- What a step does to a disk. -/
inductive Effect (r : Replacement) (d d' : Disk) : Stage → Prop
  /-- Directories that were missing above the target are made. -/
  | makes {s : Stage} (h : ∀ l, MakesOn (Above d.workingDir r.target l) (d.node? l) (d'.node? l)) :
    Effect r d d' s
  /-- Something is done to the temporary file only. -/
  | touches {s : Stage} (hopened : r.Opened d) (hbefore : d.node? (r.temporaryAt d) ≠ some .directory)
      (h : ∀ l, l ≠ r.temporaryAt d → d'.node? l = d.node? l)
      (hafter : d'.node? (r.temporaryAt d) ≠ some .directory) : Effect r d d' s
  /-- The temporary file takes the place of the target. -/
  | renames {f : File} (h : r.Renamed d d' f) : Effect r d d' (.done true (.ok ()))

theorem workingDir_writeAt (d : Disk) (file : Option Location) (offset : Nat) (bytes : List UInt8) :
    (d.writeAt file offset bytes).workingDir = d.workingDir := by
  unfold writeAt
  split
  · rfl
  · split <;> rfl

theorem Advances.workingDir (h : r.Advances s d moves s' d') : d'.workingDir = d.workingDir := by
  cases h with
  | makeDir _ _ _ h =>
    obtain ⟨-, -, -, rfl⟩ := makeDir_eq_ok h
    rfl
  | create h => exact (holds_of_write h).1
  | fill _ file _ => exact workingDir_writeAt d file _ _
  | rename h =>
    obtain ⟨f, -, -, rfl⟩ := renameFile_eq_ok h
    split <;> rfl
  | remove _ _ h =>
    obtain ⟨f, -, rfl⟩ := removeFile_eq_ok h
    rfl
  | _ => rfl

theorem grows_writeAt (d : Disk) (file : Option Location) (offset : Nat) (bytes : List UInt8) :
    Grows d (d.writeAt file offset bytes) := by
  intro hd
  cases file with
  | none => exact ⟨hd, fun _ h => h⟩
  | some l =>
    cases hl : d.node? l with
    | none => simpa only [writeAt, hl] using ⟨hd, fun _ h => h⟩
    | some n =>
      cases n with
      | directory => simpa only [writeAt, hl] using ⟨hd, fun _ h => h⟩
      | file f =>
        have hne : d.node? l ≠ some .directory := by simp [hl]
        rw [writeAt_of_file hl]
        exact hd.grows_put (.of_node? hd.tree hl) hne
          (hd.named _ (exists_of_node? hl (ne_nil_of_ne_directory hne)))

theorem Advances.grows (h : r.Advances s d moves s' d') : Grows d d' := by
  cases h with
  | makeDir _ _ _ h => exact grows_makeDir h
  | create h => exact grows_write h
  | fill _ file _ => exact grows_writeAt d file _ _
  | rename h => exact grows_renameFile h
  | remove _ _ h => exact grows_removeFile h
  | _ => exact Grows.isFrame.refl d

theorem Advances.effect (h : r.Advances s d moves s' d') (hs : r.Sound d s) (hd : d.WellFormed)
    (hr : r.IsApart) : r.Effect d d' s' := by
  cases h with
  | makeDir hparent hp hne h =>
    obtain ⟨-, -, hnone, rfl⟩ := makeDir_eq_ok h
    refine .makes fun l => ?_
    rw [node?_put (ne_nil_of_ne_directory (d := d) (by simp [hnone]))]
    split
    · rename_i hl
      subst hl
      exact .inr ⟨⟨_, _, hparent, hp, hne, rfl⟩, hnone, rfl⟩
    · exact .inl rfl
  | create h =>
    obtain ⟨f, -, ⟨hname, hlocate⟩, rfl, hn⟩ := write_eq_ok h
    have hbefore : d.node? (r.temporaryAt d) ≠ some .directory := by
      rcases hn with hn | ⟨g, hn, -⟩ <;> simp [hn]
    have hne := ne_nil_of_ne_directory hbefore
    refine .touches ⟨hlocate, hname⟩ hbefore (fun l hl => ?_) ?_
    · rw [node?_put hne, if_neg hl]
    · simp [node?_put hne]
  | fill d file h =>
    obtain ⟨hopened, rfl, -, f, hf, -⟩ := hs
    have hbefore : d.node? (r.temporaryAt d) ≠ some .directory := by simp [hf]
    have hne := ne_nil_of_ne_directory hbefore
    rw [writeAt_of_file hf]
    refine .touches hopened hbefore (fun l hl => ?_) ?_
    · rw [node?_put hne, if_neg hl]
    · simp [node?_put hne]
  | rename h =>
    obtain ⟨f, h⟩ := exists_renamed h hd.tree hr
    exact .renames h
  | remove made e h =>
    obtain ⟨f, hf⟩ := nodeAt_of_removeFile h
    obtain ⟨hlocate, hending, hnode⟩ := nodeAt_eq_file_iff.1 hf
    obtain ⟨-, -, rfl⟩ := removeFile_eq_ok h
    refine .touches ⟨hlocate, hending⟩ (by simp [hnode]) (fun l hl => ?_) ?_
    · rw [hd.tree.node?_remove_file hnode, if_neg hl]
    · rw [hd.tree.node?_remove_file hnode, if_pos rfl]
      exact nofun
  | _ => exact .makes fun l => .inl rfl

theorem Opened.of_advances {r' : Replacement} (h : r.Advances s d moves s' d') (hd : d.WellFormed)
    (ho : r'.Opened d) : r'.Opened d' := by
  have hwd := h.workingDir
  refine ⟨?_, ho.2⟩
  rw [temporaryAt, hwd]
  exact locate_of_directories hwd (fun l _ => (h.grows hd).2 l) ho.1

/-- The temporary file is not on the way of the target. -/
theorem Opened.locate_target (ho : r.Opened d) (hr : r.IsApart) (hwd : d'.workingDir = d.workingDir)
    (hbefore : d.node? (r.temporaryAt d) ≠ some .directory)
    (h : ∀ l, l ≠ r.temporaryAt d → d'.node? l = d.node? l) : d'.locate r.target = d.locate r.target := by
  obtain ⟨beside⟩ := hr ho.2
  refine locate_eq_of_passes hwd fun l hl => h l ?_
  rintro rfl
  rcases beside.directory_of_passes ho.1 hl with hdir | ⟨-, heq⟩
  · exact hbefore hdir
  · exact beside.destination_ne heq

namespace Effect

variable (h : r.Effect d d' s)
include h

theorem node?_of_ne (ht : l ≠ r.temporaryAt d) (htarget : l ≠ r.targetAt d) :
    MakesOn (Above d.workingDir r.target l) (d.node? l) (d'.node? l) := by
  cases h with
  | makes h => exact h l
  | touches _ _ h _ => exact .inl (h l ht)
  | renames h => exact .inl (by rw [h.node?, if_neg htarget, if_neg ht])

theorem node?_target (hr : r.IsApart) (hs : s ≠ .done true (.ok ())) :
    MakesOn (Above d.workingDir r.target (r.targetAt d)) (d.node? (r.targetAt d))
      (d'.node? (r.targetAt d)) := by
  cases h with
  | makes h => exact h _
  | touches hopened _ h _ =>
    obtain ⟨beside⟩ := hr hopened.2
    exact .inl (h _ beside.destination_ne.symm)
  | renames => exact absurd rfl hs

/-- Where the target's path leads does not change, unless something was missing on its way. -/
theorem locate_target (hwd : d'.workingDir = d.workingDir) (hr : r.IsApart)
    (hp : d.locate r.target ≠ .error .notFound) : d'.locate r.target = d.locate r.target := by
  cases h with
  | makes h =>
    exact locate_of_makes hwd (fun l => (h l).imp_right And.right) hp
  | touches hopened hbefore h _ => exact hopened.locate_target hr hwd hbefore h
  | @renames f h =>
    refine locate_eq_of_passes hwd fun l hl => ?_
    have hdir := hl.directory h.locate
    have htarget : l ≠ r.targetAt d := by
      rintro rfl
      exact h.target hdir
    have htemporary : l ≠ r.temporaryAt d := by
      rintro rfl
      rw [h.temporary] at hdir
      cases hdir
    rw [h.node?, if_neg htarget, if_neg htemporary]

theorem steady (hwd : d'.workingDir = d.workingDir) (hr : r.IsApart) (hp : d.Steady r.target) :
    d'.Steady r.target := by
  refine hp.imp_left fun hp => ?_
  rwa [h.locate_target hwd hr hp]

/-- Until the target is replaced it reads as before. -/
theorem readText_target (hd : d.IsTree) (hwd : d'.workingDir = d.workingDir) (hr : r.IsApart)
    (hs : s ≠ .done true (.ok ())) (hp : d.Steady r.target) : d'.readText r.target = d.readText r.target := by
  cases h with
  | makes h => exact readText_of_makes hd hwd h hp
  | touches hopened hbefore h _ =>
    obtain ⟨beside⟩ := hr hopened.2
    apply readText_congr_of_nodeAt
    refine nodeAt_congr_of_locate (hopened.locate_target hr hwd hbefore h) fun l hl => ?_
    obtain rfl := locate_eq_ok hl
    exact h _ beside.destination_ne.symm
  | renames => exact absurd rfl hs

end Effect

/-! ## What is known at each stage -/

theorem isFile_eq_false_of_node? (h : ∀ f, d.node? (destination d.workingDir p) ≠ some (.file f)) :
    d.isFile p = false := by
  rw [Bool.eq_false_iff]
  intro hp
  obtain ⟨f, hf⟩ := isFile_iff.1 hp
  exact h f (nodeAt_eq_file_iff.1 hf).2.2

theorem Opened.nodeAt_of_file {f : File} (h : r.Opened d) (hf : d.node? (r.temporaryAt d) = some (.file f)) :
    d.nodeAt r.temporary = .ok (.file f) :=
  nodeAt_eq_file_iff.2 ⟨h.1, h.2, hf⟩

theorem Opened.nodeAt_of_none (h : r.Opened d) (hn : d.node? (r.temporaryAt d) = none) :
    d.nodeAt r.temporary = .error .notFound :=
  Disk.nodeAt_of_none h.1 hn

/-- The files of a writer are filled step by step. -/
theorem Advances.fills (h : r.Advances s d moves s' d') (hs : r.Fills d s) : r.Fills d' s' := by
  have hwd := h.workingDir
  cases h with
  | create h =>
    have hholds := (holds_of_write h).2
    rw [← Content.ofList_toUTF8 ""] at hholds
    refine ⟨by rw [temporaryAt, hwd], Nat.zero_le _, ?_⟩
    rw [temporaryAt, hwd]
    exact hholds
  | @fill d file size n hn =>
    obtain ⟨hfile, hsize, f, hf, hcontent⟩ := hs
    have hne := ne_nil_of_ne_directory (d := d) (l := r.temporaryAt d) (by simp [hf])
    have hlength : (r.bytes.take size).length = size := by
      rw [List.length_take]
      omega
    have hover : f.content.overwrite size ((r.bytes.drop size).take n) = .ofList (r.bytes.take (size + n)) := by
      have happend := Content.overwrite_ofList (r.bytes.take size) ((r.bytes.drop size).take n)
      rwa [hlength, ← hcontent, ← List.take_add] at happend
    refine ⟨by rw [temporaryAt, hwd, hfile], hn, ?_⟩
    rw [temporaryAt, hwd, hfile, writeAt_of_file hf, node?_put hne, if_pos rfl]
    exact ⟨_, rfl, hover⟩
  | sync =>
    obtain ⟨-, -, hholds⟩ := hs
    rwa [List.take_length, bytes, Content.ofList_toUTF8] at hholds
  | rename h =>
    obtain ⟨f, hf, ⟨-, -, htarget⟩, rfl⟩ := renameFile_eq_ok h
    change Holds _ _
    rw [targetAt, hwd]
    split
    · rename_i hsame
      exact hsame ▸ hs
    · rw [node?_put (ne_nil_of_ne_directory htarget), if_pos rfl, ← hf]
      exact hs
  | _ => trivial

/-- What is known of the temporary file and of the target at each stage is so after each step. -/
theorem Advances.sound (h : r.Advances s d moves s' d') (hs : r.Sound d s) (hd : d.WellFormed)
    (hr : r.IsApart) : r.Sound d' s' := by
  have hwd := h.workingDir
  have heffect := h.effect hs hd hr
  have hopened : r.Opened d → r.Opened d' := Opened.of_advances h hd
  have hfills := h.fills hs.fills
  cases h with
  | makeDir => trivial
  | notPrepared => exact nofun
  | create h =>
    obtain ⟨-, -, ⟨hname, hlocate⟩, -⟩ := write_eq_ok h
    exact ⟨hopened ⟨hlocate, hname⟩, hfills⟩
  | notCreated => exact nofun
  | fill => exact ⟨hopened hs.1, hfills⟩
  | sync => exact ⟨hopened hs.1, hfills⟩
  | notFilled => exact fun _ => hs.1
  | rename h =>
    obtain ⟨f, hrenamed⟩ := exists_renamed h hd.tree hr
    obtain ⟨beside⟩ := hr hs.1.2
    have htarget : d'.node? (r.targetAt d') = some (.file f) := by
      rw [targetAt, hwd, hrenamed.node?, if_pos rfl]
    have htemporary : d'.node? (r.temporaryAt d') = none := by
      rw [temporaryAt, hwd, hrenamed.node?, if_neg beside.destination_ne, if_pos rfl]
    have hlocate : d'.locate r.target = .ok (r.targetAt d') := by
      rw [heffect.locate_target hwd hr (by simp [hrenamed.locate]), hrenamed.locate, targetAt, targetAt, hwd]
    obtain ⟨g, hg, hcontent⟩ := hfills
    obtain rfl : f = g := by simpa [htarget] using hg
    exact ⟨readText_of_nodeAt (nodeAt_eq_file_iff.2 ⟨hlocate, hrenamed.ending, htarget⟩) hcontent,
      ⟨f, htarget, hcontent⟩, (hopened hs.1).nodeAt_of_none htemporary, htemporary⟩
  | notRenamed => exact fun _ => hs.1
  | remove made e h =>
    obtain ⟨f, hf⟩ := nodeAt_of_removeFile h
    have hnode := (nodeAt_eq_file_iff.1 hf).2.2
    obtain ⟨-, -, rfl⟩ := removeFile_eq_ok h
    have hnone : ∀ f, (d.remove (r.temporaryAt d)).node? (r.temporaryAt d) ≠ some (.file f) := by
      rw [hd.tree.node?_remove_file hnode, if_pos rfl]
      exact fun _ => nofun
    exact fun _ => ⟨isFile_eq_false_of_node? hnone, hnone⟩
  | notRemoved made e h =>
    refine fun hmade => ⟨h, fun f hf => ?_⟩
    have hp := isFile_iff.2 ⟨f, (hs hmade).nodeAt_of_file hf⟩
    rw [h] at hp
    cases hp

/-! ## Runs -/

/-- The steps of one writer, while no other one changes the disk. -/
def Leads (r : Replacement) : Stage × Disk → Stage × Disk → Prop :=
  Relation.ReflTransGen fun s s' => ∃ moves, r.Advances s.1 s.2 moves s'.1 s'.2

theorem Leads.single (h : r.Advances s d moves s' d') : r.Leads (s, d) (s', d') :=
  Relation.ReflTransGen.single ⟨moves, h⟩

theorem Leads.step {x : Stage × Disk} (h : r.Leads x (s, d)) (hstep : r.Advances s d moves s' d') :
    r.Leads x (s', d') :=
  Relation.ReflTransGen.tail h ⟨moves, hstep⟩

theorem Leads.workingDir {x y : Stage × Disk} (h : r.Leads x y) : y.2.workingDir = x.2.workingDir := by
  induction h with
  | refl => rfl
  | tail _ hstep ih =>
    obtain ⟨moves, hstep⟩ := hstep
    exact hstep.workingDir.trans ih

/-- Until the temporary file is renamed, nothing is changed but this file, and directories are made above the
target. -/
theorem Advances.at_of_not_below {wd : Location} {P : Prop} (h : r.Advances s d moves s' d')
    (hs : r.Fills d s) (hs' : s' ≠ .done true (.ok ())) (hl : ¬destination wd r.temporary <+: l)
    (hP : Above wd r.target l → P) : At wd l (MakesOn P) d d' := by
  have hne : destination wd r.temporary ≠ l := fun heq => hl (heq ▸ List.prefix_rfl)
  cases h with
  | makeDir hparent hp hempty h =>
    rintro rfl
    obtain ⟨-, -, hnone, rfl⟩ := makeDir_eq_ok h
    refine at_put MakesOn.isFrame (ne_nil_of_ne_directory (d := d) (by simp [hnone])) ?_ rfl
    rintro rfl
    exact .inr ⟨hP ⟨_, _, hparent, hp, hempty, rfl⟩, hnone, rfl⟩
  | create h => exact at_write_of_ne MakesOn.isFrame hne h
  | fill d file h =>
    rintro rfl
    obtain ⟨rfl, -, f, hf, -⟩ := hs
    rw [writeAt_of_file hf]
    exact at_put MakesOn.isFrame (ne_nil_of_ne_directory (d := d) (by simp [hf])) (absurd · hne) rfl
  | rename => exact absurd rfl hs'
  | remove _ _ h => exact at_removeFile MakesOn.isFrame hl h
  | _ => exact (At.isFrame MakesOn.isFrame).refl _

theorem Leads.fills (h : r.Leads (.preparing, d₀) (s, d)) : r.Fills d s := by
  suffices ∀ x, r.Leads (.preparing, d₀) x → r.Fills x.2 x.1 from this _ h
  intro x hx
  induction hx with
  | refl => trivial
  | tail _ hstep ih =>
    obtain ⟨moves, hstep⟩ := hstep
    exact hstep.fills ih

theorem Leads.at_of_not_below {P : Prop} (h : r.Leads (.preparing, d₀) (s, d))
    (hs : s ≠ .done true (.ok ())) (hl : ¬destination d₀.workingDir r.temporary <+: l)
    (hP : Above d₀.workingDir r.target l → P) : At d₀.workingDir l (MakesOn P) d₀ d := by
  suffices ∀ x, r.Leads (.preparing, d₀) x → x.1 ≠ .done true (.ok ()) →
      At d₀.workingDir l (MakesOn P) d₀ x.2 from this _ h hs
  intro x hx
  induction hx with
  | refl => exact fun _ => (At.isFrame MakesOn.isFrame).refl d₀
  | @tail x y hlead hstep ih =>
    intro hy
    obtain ⟨moves, hstep⟩ := hstep
    have hnot : x.1 ≠ .done true (.ok ()) := by
      intro heq
      rw [heq] at hstep
      cases hstep
    exact (At.isFrame MakesOn.isFrame).trans (ih hnot)
      (hstep.at_of_not_below (Leads.fills hlead) hy hl hP)

/-- What holds in the course of a replacement that starts on a disk. -/
structure Follows (r : Replacement) (d₀ : Disk) (s : Stage) (d : Disk) : Prop where
  workingDir : d.workingDir = d₀.workingDir
  wellFormed : d.WellFormed
  sound : r.Sound d s
  others (l : Location) (ht : l ≠ r.temporaryAt d₀) (htarget : l ≠ r.targetAt d₀) :
    MakesOn (Above d₀.workingDir r.target l) (d₀.node? l) (d.node? l)
  target (hs : s ≠ .done true (.ok ())) : MakesOn (Above d₀.workingDir r.target (r.targetAt d₀))
    (d₀.node? (r.targetAt d₀)) (d.node? (r.targetAt d₀))
  steady (h : d₀.Steady r.target) : d.Steady r.target
  read (hs : s ≠ .done true (.ok ())) (h : d₀.Steady r.target) : d.readText r.target = d₀.readText r.target

theorem Leads.follows (hd : d₀.WellFormed) (hr : r.IsApart) (h : r.Leads (.preparing, d₀) (s, d)) :
    r.Follows d₀ s d := by
  suffices ∀ x, r.Leads (.preparing, d₀) x → r.Follows d₀ x.1 x.2 from this _ h
  intro x hx
  induction hx with
  | refl => exact ⟨rfl, hd, trivial, fun _ _ _ => .inl rfl, fun _ => .inl rfl, id, fun _ _ => rfl⟩
  | @tail x y _ hstep ih =>
    obtain ⟨moves, hstep⟩ := hstep
    have heffect := hstep.effect ih.sound ih.wellFormed hr
    have hwd := hstep.workingDir
    have hnot : x.1 ≠ .done true (.ok ()) := by
      intro heq
      rw [heq] at hstep
      cases hstep
    constructor
    case workingDir => exact hwd.trans ih.workingDir
    case wellFormed => exact (hstep.grows ih.wellFormed).1
    case sound => exact hstep.sound ih.sound ih.wellFormed hr
    case others =>
      intro l ht htarget
      refine MakesOn.isFrame.trans (ih.others l ht htarget) ?_
      rw [← ih.workingDir]
      exact heffect.node?_of_ne (by rwa [temporaryAt, ih.workingDir]) (by rwa [targetAt, ih.workingDir])
    case target =>
      intro hs
      refine MakesOn.isFrame.trans (ih.target hnot) ?_
      have htarget := heffect.node?_target hr hs
      rwa [targetAt, ih.workingDir] at htarget
    case steady => exact fun hp => heffect.steady hwd hr (ih.steady hp)
    case read =>
      intro hs hp
      rw [heffect.readText_target ih.wellFormed.tree hwd hr hs (ih.steady hp), ih.read hnot hp]

/-! ## What is performed is a run -/

theorem leads_makeDirs {parent : Path} (hparent : r.target.parent? = some parent) :
    Keeps (fun d d' => r.Leads (.preparing, d) (.preparing, d')) (makeDirs parent) := by
  refine keeps_makeDirsUpTo_of ⟨fun _ => .refl, fun h h' => h.trans h'⟩ fun p hp hne d d' h => ?_
  exact .single (.makeDir hparent hp hne h)

/-- A writer that fails removes the temporary file, or finds none. -/
theorem leads_cleanUp (made : Bool) (e : FileError) (d : Disk) :
    r.Leads (.failing made e, d) (.done made (.error e), (r.cleanUp.run d).2) := by
  unfold cleanUp
  rw [run_bind, Action.run_attempt, Action.run_change]
  cases h : removeFile r.temporary d with
  | ok d' => exact .single (.remove made e h)
  | error e' => exact .single (.notRemoved made e (isFile_of_removeFile_error h))

/-- The new text may be written in one piece. -/
theorem Advances.fill_all (d : Disk) (file : Option Location) :
    r.Advances (.filling file 0) d some (.filling file r.bytes.length) (d.writeAt file 0 r.bytes) := by
  have h : r.Advances (.filling file 0) d some (.filling file (0 + r.bytes.length)) _ :=
    .fill d file (Nat.le_of_eq (Nat.zero_add _))
  rwa [Nat.zero_add, List.drop_zero, List.take_length] at h

theorem leads_fill (hcreate : write r.temporary (.text "") d = .ok d')
    {d₂ : Disk} (hfill : write r.temporary (.text r.text) d' = .ok d₂) :
    r.Leads (.preparing, d) (.filling (some (r.temporaryAt d)) r.bytes.length, d₂) := by
  obtain ⟨hwd, f, hf, hcontent⟩ := holds_of_write hcreate
  have hover : f.content.overwrite 0 r.bytes = .text r.text := by
    rw [hcontent, ← Content.ofList_toUTF8 "", ← Content.ofList_toUTF8 r.text]
    exact Content.overwrite_ofList [] r.bytes
  have hd₂ : d₂ = d'.writeAt (some (r.temporaryAt d)) 0 r.bytes := by
    obtain ⟨g, -, -, rfl, hn⟩ := write_eq_ok hfill
    rw [hwd, hf] at hn
    rw [writeAt_of_file hf, hover, hwd]
    rcases hn with ⟨⟨⟩⟩ | ⟨f', hf', rfl⟩
    cases hf'
    rfl
  have hfilled := Advances.fill_all (r := r) d' (some (r.temporaryAt d))
  rw [← hd₂] at hfilled
  exact (Leads.single (.create hcreate)).step hfilled

/-- A run of steps that fails has failed at the first one, or later. -/
theorem run_cons_eq_error_iff {step : Step} {steps : List Step} {e : FileError} :
    (r.run (step :: steps)).run d = (.error e, d') ↔ (r.apply step d = .error e ∧ d' = d) ∨
      ∃ d₁, r.apply step d = .ok d₁ ∧ (r.run steps).run d₁ = (.error e, d') := by
  show ((Action.change (r.apply step) >>= fun _ => r.run steps).run d = _) ↔ _
  rw [run_bind, Action.run_change]
  cases r.apply step d with
  | error e' =>
    constructor
    · rintro ⟨⟩
      exact .inl ⟨rfl, rfl⟩
    · rintro (⟨⟨⟩, rfl⟩ | ⟨_, ⟨⟩, _⟩)
      rfl
  | ok d₁ =>
    constructor
    · exact fun h => .inr ⟨d₁, rfl, h⟩
    · rintro (⟨⟨⟩, -⟩ | ⟨_, ⟨⟩, h⟩)
      exact h

/-- A writer whose steps fail has to remove the temporary file. -/
theorem leads_of_run_error {e : FileError} (h : (r.run steps).run d = (.error e, d')) :
    ∃ made, r.Leads (.preparing, d) (.failing made e, d') := by
  rcases run_cons_eq_error_iff.1 h with ⟨-, rfl⟩ | ⟨d₁, hcreate, h⟩
  · exact ⟨false, .single (.notCreated _ e)⟩
  rcases run_cons_eq_error_iff.1 h with ⟨-, rfl⟩ | ⟨d₂, hfill, h⟩
  · exact ⟨true, (Leads.single (.create hcreate)).step (.notFilled _ _ _ e)⟩
  rcases run_cons_eq_error_iff.1 h with ⟨⟨⟩, -⟩ | ⟨d₃, hsync, h⟩
  cases hsync
  rcases run_cons_eq_error_iff.1 h with ⟨-, rfl⟩ | ⟨d₄, -, ⟨⟩⟩
  exact ⟨true, ((leads_fill hcreate hfill).step (.sync _ _)).step (.notRenamed _ e)⟩

theorem leads_of_run_ok (h : (r.run steps).run d = (.ok (), d')) :
    r.Leads (.preparing, d) (.done true (.ok ()), d') := by
  obtain ⟨d₁, hcreate, h⟩ := run_cons_eq_ok_iff.1 h
  obtain ⟨d₂, hfill, h⟩ := run_cons_eq_ok_iff.1 h
  obtain ⟨d₃, hsync, h⟩ := run_cons_eq_ok_iff.1 h
  cases hsync
  obtain ⟨d₄, hrename, h⟩ := run_cons_eq_ok_iff.1 h
  cases h
  exact ((leads_fill hcreate hfill).step (.sync _ _)).step (.rename hrename)

/-- A replacement that is performed is a run of a writer. -/
theorem exists_leads_perform (r : Replacement) (d : Disk) : ∃ made result d',
    r.perform.run d = (result, d') ∧ r.Leads (.preparing, d) (.done made result, d') := by
  unfold perform
  rw [run_bind, Action.run_attempt]
  rcases hrun : (r.run steps).run d with ⟨e | _, d₁⟩
  · obtain ⟨made, hleads⟩ := leads_of_run_error hrun
    exact ⟨made, .error e, (r.cleanUp.run d₁).2, rfl, hleads.trans (leads_cleanUp made e d₁)⟩
  · exact ⟨true, .ok (), d₁, rfl, leads_of_run_ok hrun⟩

end Replacement

end Disk
end JobBundler
