import ApiForge.Proofs.Contents
import ApiForge.Proofs.Directories
import ApiForge.Proofs.Imports

/-! What it takes that generated code declares no name twice: each file has its names once, and files side by side, which
are in one package, have none in common. -/

namespace ApiForge

open Code (File)
open Generated

/-! ### Declared names -/

/-- What a file declares: names, and methods after their types. -/
def Code.File.declared (f : File) : List (Option String × String) :=
  f.names.map (none, ·) ++ f.methods.map fun x => (some x.1, x.2)

/-- What an artifact adds to the package that is in its directory. -/
def Artifact.declared (a : Artifact) : List (List Path.Component × Option String × String) :=
  match a.document with
  | .code f => f.declared.map (a.directory, ·)
  | .plain _ => []

def Artifact.importNames (a : Artifact) : List String :=
  match a.document with
  | .code f => f.importNames
  | .plain _ => []

/-- No package has a name twice, and no file calls two packages the same. -/
structure DeclaredOnce (artifacts : List Artifact) : Prop where
  declared : (artifacts.flatMap Artifact.declared).Nodup
  imported : ∀ a ∈ artifacts, a.importNames.Nodup

theorem Code.File.nodup_declared_iff {f : File} : f.declared.Nodup ↔ f.names.Nodup ∧ f.methods.Nodup := by
  have hnames : (f.names.map fun name => ((none, name) : Option String × String)).Nodup ↔ f.names.Nodup :=
    List.nodup_map_iff fun _ _ heq => (Prod.mk.inj heq).2
  have hmethods : (f.methods.map fun x => ((some x.1, x.2) : Option String × String)).Nodup ↔ f.methods.Nodup :=
    List.nodup_map_iff fun x y heq => Prod.ext (Option.some.inj (Prod.mk.inj heq).1) (Prod.mk.inj heq).2
  have hapart : (f.names.map fun name => ((none, name) : Option String × String)).Disjoint
      (f.methods.map fun x => (some x.1, x.2)) := by
    intro x hx hx'
    obtain ⟨name, -, rfl⟩ := List.mem_map.mp hx
    obtain ⟨y, -, heq⟩ := List.mem_map.mp hx'
    cases (Prod.mk.inj heq).1
  rw [declared, List.nodup_append', hnames, hmethods, ← and_assoc, and_iff_left hapart]

theorem Code.File.disjoint_declared_iff {f f' : File} :
    f.declared.Disjoint f'.declared ↔ f.names.Disjoint f'.names ∧ f.methods.Disjoint f'.methods := by
  have hmem {f : File} {name : String} : (none, name) ∈ f.declared ↔ name ∈ f.names := by
    simp [declared]
  have hmem' {f : File} {x : String × String} : (some x.1, x.2) ∈ f.declared ↔ x ∈ f.methods := by
    simp [declared]
  constructor
  · intro h
    exact ⟨fun name hname hname' => h (hmem.mpr hname) (hmem.mpr hname'),
      fun x hx hx' => h (hmem'.mpr hx) (hmem'.mpr hx')⟩
  · rintro ⟨hnames, hmethods⟩ ⟨type?, name⟩ hx hx'
    cases type? with
    | none => exact hnames (hmem.mp hx) (hmem.mp hx')
    | some type => exact hmethods (hmem' (x := (type, name)) |>.mp hx) (hmem'.mp hx')

/-- The same of the files of a model: each has its names once, and files side by side have none in common. -/
structure Model.FilesDeclareOnce (m : Model) (p : Project) : Prop where
  within : ∀ e ∈ defaultEmitters, ∀ t f, e.Writes p m t f → f.names.Nodup ∧ f.methods.Nodup
  between : ∀ x y : Emitter × Target, Beside x y → x ≠ y → ∀ f f', x.1.Writes p m x.2 f → y.1.Writes p m y.2 f' →
    f.names.Disjoint f'.names ∧ f.methods.Disjoint f'.methods
  imported : ∀ e ∈ defaultEmitters, ∀ t f, e.Writes p m t f → f.importNames.Nodup

theorem Artifact.mem_declared_iff {a : Artifact} {d : List Path.Component × Option String × String} :
    d ∈ a.declared ↔ ∃ f, a.document = .code f ∧ d.1 = a.directory ∧ d.2 ∈ f.declared := by
  rw [declared]
  cases a.document with
  | plain text => simp
  | code f =>
      simp only [List.mem_map, Document.code.injEq, exists_eq_left']
      constructor
      · rintro ⟨name, hname, rfl⟩
        exact ⟨rfl, hname⟩
      · rintro ⟨hdirectory, hname⟩
        exact ⟨d.2, hname, Prod.ext hdirectory.symm rfl⟩

theorem Artifact.nodup_declared_iff {a : Artifact} :
    a.declared.Nodup ↔ ∀ f, a.document = .code f → f.names.Nodup ∧ f.methods.Nodup := by
  rw [declared]
  cases a.document with
  | code f =>
      have hinjective : Function.Injective fun name : Option String × String => (a.directory, name) :=
        fun _ _ heq => (Prod.mk.inj heq).2
      simp [List.nodup_map_iff hinjective, Code.File.nodup_declared_iff]
  | plain text => simp

theorem Artifact.nodup_importNames_iff {a : Artifact} :
    a.importNames.Nodup ↔ ∀ f, a.document = .code f → f.importNames.Nodup := by
  rw [importNames]
  cases a.document with
  | code f => simp
  | plain text => simp

/-- Artifacts in one directory declare different names when their files do. -/
theorem Artifact.disjoint_declared_iff {a b : Artifact} (hsame : a.directory = b.directory) :
    a.declared.Disjoint b.declared ↔ ∀ f f', a.document = .code f → b.document = .code f' →
      f.names.Disjoint f'.names ∧ f.methods.Disjoint f'.methods := by
  simp only [← Code.File.disjoint_declared_iff]
  constructor
  · intro h f f' hf hf' name hname hname'
    exact h (a := (a.directory, name)) (mem_declared_iff.mpr ⟨f, hf, rfl, hname⟩)
      (mem_declared_iff.mpr ⟨f', hf', hsame, hname'⟩)
  · intro h d hd hd'
    obtain ⟨f, hf, -, hname⟩ := mem_declared_iff.mp hd
    obtain ⟨f', hf', -, hname'⟩ := mem_declared_iff.mp hd'
    exact h f f' hf hf' hname hname'

namespace Config.Built

variable {project : Project} {inspect : Inspector} {c : Config} {m : Model}

theorem mem_artifacts (h : c.Built project inspect m) {x : Emitter × Target} (hx : x ∈ m.sites) {a : Artifact}
    (hmakes : x.1.Makes project m x.2 a) : a ∈ m.artifacts project := by
  obtain ⟨b, hb, hmakes'⟩ := h.exists_makes hx
  rw [hmakes.eq hmakes']
  exact hb

theorem disjoint_of_beside (h : c.Built project inspect m) (hfiles : m.FilesDeclareOnce project)
    {x y : Emitter × Target} (hbeside : Beside x y) (hne : x ≠ y) {a b : Artifact} (ha : x.1.Makes project m x.2 a)
    (hb : y.1.Makes project m y.2 b) (hsame : a.directory = b.directory) : a.declared.Disjoint b.declared := by
  have hmem := h.mem_artifacts (ha.site hbeside.mem.1) ha
  have hmem' := h.mem_artifacts (hb.site hbeside.mem.2) hb
  exact (Artifact.disjoint_declared_iff hsame).mpr fun f f' hf hf' =>
    hfiles.between x y hbeside hne f f' ⟨a, hmem, ha, hf⟩ ⟨b, hmem', hb, hf'⟩

/-- No name is there twice exactly when none is in files side by side. -/
theorem declaredOnce_iff (h : c.Built project inspect m) (hplain : c.Plain) :
    DeclaredOnce (m.artifacts project) ↔ m.FilesDeclareOnce project := by
  have hsymm (a b : Artifact) (hab : a.declared.Disjoint b.declared) : b.declared.Disjoint a.declared :=
    hab.symm
  have hsites : ∀ a ∈ m.artifacts project, ∃ x ∈ m.sites, x.1.Makes project m x.2 a := fun a ha =>
    exists_of_forall₂ h.artifacts_sites ha
  constructor
  · rintro ⟨hdeclared, himported⟩
    obtain ⟨hwithin, hbetween⟩ := List.nodup_flatMap.mp hdeclared
    refine ⟨fun e he t f => ?_, fun x y hbeside hne f f' => ?_, fun e he t f => ?_⟩
    · rintro ⟨a, ha, -, hdocument⟩
      exact Artifact.nodup_declared_iff.mp (hwithin a ha) f hdocument
    · rintro ⟨a, ha, hmakes, hdocument⟩ ⟨b, hb, hmakes', hdocument'⟩
      have hx := hmakes.site hbeside.mem.1
      have hy := hmakes'.site hbeside.mem.2
      have hdisjoint := (h.pairwise_artifacts_iff hsymm).mp hbetween x hx y hy hne a b hmakes hmakes'
      have hsame := (h.directory_eq_iff_beside hplain hx hy hmakes hmakes').mpr (Or.inr (Or.inl hbeside))
      exact (Artifact.disjoint_declared_iff hsame).mp hdisjoint f f' hdocument hdocument'
    · rintro ⟨a, ha, -, hdocument⟩
      exact Artifact.nodup_importNames_iff.mp (himported a ha) f hdocument
  · intro hfiles
    refine ⟨List.nodup_flatMap.mpr ⟨fun a ha => ?_, (h.pairwise_artifacts_iff hsymm).mpr ?_⟩, fun a ha => ?_⟩
    · obtain ⟨x, hx, hmakes⟩ := hsites a ha
      exact Artifact.nodup_declared_iff.mpr fun f hdocument =>
        hfiles.within x.1 (Model.mem_sites.mp hx).1 x.2 f ⟨a, ha, hmakes, hdocument⟩
    · intro x hx y hy hne a b hmakes hmakes' d hd hd'
      -- A name of both is in one directory, so the files are side by side.
      have hsame : a.directory = b.directory := by
        obtain ⟨_, -, ha, -⟩ := Artifact.mem_declared_iff.mp hd
        obtain ⟨_, -, hb, -⟩ := Artifact.mem_declared_iff.mp hd'
        exact ha.symm.trans hb
      rcases (h.directory_eq_iff_beside hplain hx hy hmakes hmakes').mp hsame with heq | hbeside | hbeside
      · exact hne heq
      · exact h.disjoint_of_beside hfiles hbeside hne hmakes hmakes' hsame hd hd'
      · exact h.disjoint_of_beside hfiles hbeside hne.symm hmakes' hmakes hsame.symm hd' hd
    · obtain ⟨x, hx, hmakes⟩ := hsites a ha
      exact Artifact.nodup_importNames_iff.mpr fun f hdocument =>
        hfiles.imported x.1 (Model.mem_sites.mp hx).1 x.2 f ⟨a, ha, hmakes, hdocument⟩

end Config.Built

end ApiForge
