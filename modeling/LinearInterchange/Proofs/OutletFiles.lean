import LinearInterchange.Conversion.Writer
import LinearInterchange.Proofs.FolderFiles
import LinearInterchange.Proofs.NumberText
import LinearInterchange.Proofs.Outcome

/-!
# Instances in files

An outlet into a directory names the file of an instance after the instance, or by a number if the
instance has no name that a file can have.  Every file lies in the directory itself, but two
instances get one file if they have the same name or if one of them is named as the other is
numbered (`Filed.Clashes`), and then the later one takes the place of the earlier one.  Apart from
that, what was committed can be read back (`files_held`).
-/

namespace LinearInterchange

open Folder

/-- An instance in a file: the name of the instance, the extension for its format, its bytes, the
number of instances without name before it, and the path that its commit has returned. -/
structure Filed where
  name : Option String
  extension : String
  bytes : List UInt8
  unnamed : ℕ
  path : String

namespace Filed

/-- The name of the file. -/
def file (compression : Option String) (d : Filed) : String :=
  Outlet.fileName (Outlet.stem d.unnamed d.name).1 d.extension compression

/-- Two instances of one format get the same file: they have one name, or one is named as the other
is numbered. -/
def Clashes (d e : Filed) : Prop :=
  d.extension = e.extension ∧
    match d.name.filter Outlet.isFileStem, e.name.filter Outlet.isFileStem with
    | some a, some b => a = b
    | some a, none => a = "instance-" ++ toString (e.unnamed + 1)
    | none, some b => "instance-" ++ toString (d.unnamed + 1) = b
    | none, none => False

end Filed

namespace Outlet

/-- An outlet files instances in a directory, one after another.  Commits that are refused may stand
in between. -/
inductive Files (dir : String) (compression : Option String) :
    Outlet → List Filed → Outlet → Prop
  | nil (out : Outlet) : Files dir compression out [] out
  | filed {d : Filed} {ds : List Filed} {out out₁ out₂ : Outlet}
      (hcommit : out.commitFile dir compression d.name d.extension d.bytes = (.ok d.path, out₁))
      (hunnamed : d.unnamed = out.unnamed) (hrest : Files dir compression out₁ ds out₂) :
      Files dir compression out (d :: ds) out₂
  | refused {ds : List Filed} {name : Option String} {extension : String} {bytes : List UInt8}
      {fault : SystemFault} {out out₁ out₂ : Outlet}
      (hcommit : out.commitFile dir compression name extension bytes = (.error fault, out₁))
      (hrest : Files dir compression out₁ ds out₂) : Files dir compression out ds out₂

variable {dir file extension path : String} {compression name : Option String} {n : ℕ}
  {bytes : List UInt8} {out out₁ : Outlet} {d : Filed} {ds : List Filed} {here : List String}

/-! ## Names of files -/

/-- A stem holds no slash. -/
lemma slash_notMem_stem : '/' ∉ (stem n name).1.toList := by
  unfold stem
  split
  next name hname =>
    have hstem : isFileStem name = true := (Option.filter_eq_some_iff.1 hname).2
    simp only [isFileStem, Bool.and_eq_true, Bool.not_eq_true', List.any_eq_false] at hstem
    intro hmem
    simpa using hstem.2 _ hmem
  next =>
    intro hmem
    rw [String.toList_append, List.mem_append] at hmem
    rcases hmem with hmem | hmem
    · exact absurd hmem (by decide)
    · rw [Text.toList_toString_nat] at hmem
      exact absurd (Text.isDigit_of_mem hmem) (by decide)

/-- The number of instances without name does not fall. -/
lemma le_stem : n ≤ (stem n name).2 := by
  unfold stem
  split
  · exact le_rfl
  · exact Nat.le_succ n

/-- An instance that no file can be named after adds to the number of instances without name. -/
lemma stem_of_filter_eq_none (h : name.filter isFileStem = none) : (stem n name).2 = n + 1 := by
  rw [stem, h]

lemma fileName_ne_empty {stem : String} : fileName stem extension compression ≠ "" := by
  intro h
  simpa [fileName] using congrArg String.toList h

/-- The name of a file holds no slash if the extensions hold none. -/
lemma slash_notMem_fileName {stem : String} (hstem : '/' ∉ stem.toList)
    (hextension : '/' ∉ extension.toList) (hcompression : ∀ c ∈ compression, '/' ∉ c.toList) :
    '/' ∉ (fileName stem extension compression).toList := by
  cases compression with
  | none => simp [fileName, hstem, hextension]
  | some c => simp [fileName, hstem, hextension, hcompression c rfl]

/-- The names of files are the same just if the stems and the extensions for the formats are. -/
lemma fileName_inj {stem stem' extension' : String} (hextension : '.' ∉ extension.toList)
    (hextension' : '.' ∉ extension'.toList) :
    fileName stem extension compression = fileName stem' extension' compression ↔
      stem = stem' ∧ extension = extension' := by
  refine ⟨fun h => ?_, by rintro ⟨rfl, rfl⟩; rfl⟩
  have hlist : stem.toList ++ '.' :: extension.toList = stem'.toList ++ '.' :: extension'.toList := by
    simpa using congrArg String.toList ((String.append_left_inj _).1 h)
  -- the extension is what follows the last dot
  have hparts := congrArg (List.splitOn '.') hlist
  simp only [List.splitOn_append_cons_self, List.splitOn_eq_singleton hextension,
    List.splitOn_eq_singleton hextension', List.append_singleton_inj] at hparts
  rw [hparts.2, List.append_left_inj] at hlist
  exact ⟨String.ext hlist, String.ext hparts.2⟩

/-- The stems of two instances are the same just if the instances have one name, or one is named as
the other is numbered, or both have the same number. -/
lemma stem_eq_iff {m : ℕ} {name' : Option String} :
    (stem n name).1 = (stem m name').1 ↔
      match name.filter isFileStem, name'.filter isFileStem with
      | some a, some b => a = b
      | some a, none => a = "instance-" ++ toString (m + 1)
      | none, some b => "instance-" ++ toString (n + 1) = b
      | none, none => n = m := by
  unfold stem
  cases name.filter isFileStem <;> cases name'.filter isFileStem
  case none.none =>
    refine ⟨fun h => ?_, by rintro rfl; rfl⟩
    have hdigits := congrArg String.toList ((String.append_right_inj _).1 h)
    rw [Text.toList_toString_nat, Text.toList_toString_nat] at hdigits
    have hvalue := congrArg Text.Parser.valueOf hdigits
    rw [Text.valueOf_toDigits, Text.valueOf_toDigits] at hvalue
    exact Nat.add_right_cancel hvalue
  all_goals rfl

/-! ## Paths of files -/

/-- The path of a file in a directory that has a path: a slash stands before the name, and it may be
that of the directory. -/
lemma exists_toList_join (hdir : dir ≠ "") (file : String) :
    ∃ cs, (join dir file).toList = cs ++ '/' :: file.toList ∧
      (dir.toList = cs ∨ dir.toList = cs ++ ['/']) := by
  by_cases hlast : dir.toList.getLast? = some '/'
  · obtain ⟨cs, hcs⟩ := List.getLast?_eq_some_iff.1 hlast
    refine ⟨cs, ?_, .inr hcs⟩
    simp [join, hcs]
  · refine ⟨dir.toList, ?_, .inl rfl⟩
    simp [join, hdir, hlast]

/-- The names on the path of a file in a directory are those on the path of the directory, and that of
the file. -/
lemma names_join (hne : file ≠ "") (hfile : '/' ∉ file.toList) :
    names (join dir file) = names dir ++ [file] := by
  rcases eq_or_ne dir "" with rfl | hdir
  · have hhead : file.toList.head? ≠ some '/' := fun h => hfile (List.mem_of_mem_head? h)
    simp [join, names, List.splitOn_eq_singleton hfile, hhead, hne]
  have hcons : dir.toList ≠ [] := by simpa using hdir
  obtain ⟨cs, hlist, hcs⟩ := exists_toList_join hdir file
  -- the parts between slashes are those of the directory, and the name
  have hparts : ((cs ++ '/' :: file.toList).splitOn '/').map String.ofList =
      (cs.splitOn '/').map String.ofList ++ [file] := by
    rw [List.splitOn_append_cons_self, List.splitOn_eq_singleton hfile, List.map_append]
    simp
  have hdirParts : ((dir.toList.splitOn '/').map String.ofList).filter (· ≠ "") =
      ((cs.splitOn '/').map String.ofList).filter (· ≠ "") := by
    rcases hcs with hcs | hcs
    · rw [hcs]
    · simp [hcs, List.splitOn_append_cons_self]
  have hhead : (cs ++ '/' :: file.toList).head? = dir.toList.head? := by
    rcases hcs with rfl | hcs
    · rw [List.head?_append_of_ne_nil _ hcons]
    · rw [hcs]
      cases cs <;> rfl
  rw [names, names, hlist, hhead, hparts, hdirParts, List.filter_append,
    List.filter_cons_of_pos (by simpa using hne), List.filter_nil]
  split <;> rfl

lemma join_inj {a b : String} : join dir a = join dir b ↔ a = b := by
  unfold join
  split <;> simp only [String.append_right_inj]

/-! ## Commits -/

/-- A commit that an outlet takes puts its bytes where the path of the file leads. -/
lemma commitFile_ok (h : out.commitFile dir compression name extension bytes = (.ok path, out₁)) :
    path = join dir (fileName (stem out.unnamed name).1 extension compression) ∧
      out₁.unnamed = (stem out.unnamed name).2 ∧
      ∃ place, out.folder.placeToMove path = .ok place ∧ out₁.folder = out.folder.put bytes place := by
  unfold commitFile at h
  simp only at h
  split at h
  next folder hcommit =>
    obtain ⟨hpath, rfl⟩ := Prod.mk.inj h
    cases hpath
    obtain ⟨place, hplace, rfl⟩ := map_eq_ok.1 hcommit
    exact ⟨rfl, rfl, place, hplace, rfl⟩
  · cases h

/-- A commit that an outlet refuses leaves the files as they are. -/
lemma commitFile_error {fault : SystemFault}
    (h : out.commitFile dir compression name extension bytes = (.error fault, out₁)) :
    out₁.unnamed = (stem out.unnamed name).2 ∧ out₁.folder = out.folder := by
  unfold commitFile at h
  simp only at h
  split at h
  · cases h
  · obtain rfl := (Prod.mk.inj h).2
    exact ⟨rfl, rfl⟩

/-- An extension that holds no dot and no slash. -/
def IsPlain (extension : String) : Prop :=
  '.' ∉ extension.toList ∧ '/' ∉ extension.toList

lemma isPlain_extension (f : OutputFormat) : IsPlain f.extension := by
  cases f <;> simp [IsPlain, OutputFormat.extension]

/-- An outlet files an instance in the directory: the path of its file leads there, and the file holds
what was committed. -/
lemma leads_of_commitFile (hwalk : out.folder.walk [] (names dir) = .ok (.dir here))
    (hcompression : ∀ c ∈ compression, '/' ∉ c.toList) (hplain : IsPlain d.extension)
    (hcommit : out.commitFile dir compression d.name d.extension d.bytes = (.ok d.path, out₁))
    (hunnamed : d.unnamed = out.unnamed) :
    d.path = join dir (d.file compression) ∧
      out.folder.Leads d.path here (d.file compression) ∧
      out₁.folder = out.folder.put d.bytes (here ++ [d.file compression]) := by
  obtain ⟨hpath, -, place, hplace, hfolder⟩ := commitFile_ok hcommit
  rw [← hunnamed] at hpath
  obtain ⟨there, name, hleads, rfl⟩ := leads_of_placeToMove hplace
  have hnames : names d.path = names dir ++ [d.file compression] := by
    rw [hpath]
    exact names_join fileName_ne_empty
      (slash_notMem_fileName slash_notMem_stem hplain.2 hcompression)
  obtain ⟨rfl, rfl⟩ := hleads.eq_of_names hnames hwalk
  exact ⟨hpath, hleads, hfolder⟩

/-! ## Sequences of commits -/

namespace Files

variable {out' : Outlet}

/-- An outlet that takes the commit of an instance goes on from there. -/
lemma of_ok
    (hcommit : (out.commitFile dir compression d.name d.extension d.bytes).1 = .ok d.path)
    (hunnamed : d.unnamed = out.unnamed)
    (hrest : (out.commitFile dir compression d.name d.extension d.bytes).2.Files dir compression ds
      out') : out.Files dir compression (d :: ds) out' :=
  .filed (Prod.ext hcommit rfl) hunnamed hrest

/-- What holds of a folder whatever files are put into it, holds on after commits. -/
lemma keeps {P : Folder → Prop} (hput : ∀ folder bytes place, P folder → P (folder.put bytes place))
    (h : out.Files dir compression ds out') (hP : P out.folder) : P out'.folder := by
  induction h with
  | nil => exact hP
  | filed hcommit _ _ ih =>
    obtain ⟨-, -, place, -, hfolder⟩ := commitFile_ok hcommit
    exact ih (hfolder ▸ hput _ _ _ hP)
  | refused hcommit _ ih => exact ih ((commitFile_error hcommit).2 ▸ hP)

/-- The number of instances without name that an outlet has counted, later instances have before
them. -/
lemma unnamed_le (h : out.Files dir compression ds out') : ∀ d ∈ ds, out.unnamed ≤ d.unnamed := by
  induction h with
  | nil => exact fun d hd => absurd hd List.not_mem_nil
  | filed hcommit hunnamed _ ih =>
    obtain ⟨-, hstem, -⟩ := commitFile_ok hcommit
    refine List.forall_mem_cons.2 ⟨hunnamed.ge, fun e he => ?_⟩
    exact (hstem ▸ le_stem).trans (ih e he)
  | refused hcommit _ ih =>
    obtain ⟨hstem, -⟩ := commitFile_error hcommit
    exact fun e he => (hstem ▸ le_stem).trans (ih e he)

/-- An instance that no file can be named after counts for those behind it. -/
lemma pairwise_unnamed (h : out.Files dir compression ds out') :
    ds.Pairwise fun d e => d.name.filter isFileStem = none → d.unnamed < e.unnamed := by
  induction h with
  | nil => exact .nil
  | filed hcommit hunnamed hrest ih =>
    obtain ⟨-, hstem, -⟩ := commitFile_ok hcommit
    refine List.pairwise_cons.2 ⟨fun e he hnone => ?_, ih⟩
    have hle := hrest.unnamed_le e he
    rw [hstem, stem_of_filter_eq_none hnone, ← hunnamed] at hle
    exact hle
  | refused _ _ ih => exact ih

/-- The paths of filed instances lead to files in the directory. -/
lemma leads (h : out.Files dir compression ds out')
    (hwalk : out.folder.walk [] (names dir) = .ok (.dir here))
    (hcompression : ∀ c ∈ compression, '/' ∉ c.toList) (hplain : ∀ d ∈ ds, IsPlain d.extension) :
    ∀ d ∈ ds, d.path = join dir (d.file compression) ∧
      out'.folder.Leads d.path here (d.file compression) ∧
      ∃ bytes, out'.folder.files.get? (key (here ++ [d.file compression])) = some bytes := by
  induction h with
  | nil => exact fun d hd => absurd hd List.not_mem_nil
  | filed hcommit hunnamed hrest ih =>
    obtain ⟨hplain, hplain'⟩ := List.forall_mem_cons.1 hplain
    obtain ⟨hpath, hleads, hfolder⟩ := leads_of_commitFile hwalk hcompression hplain hcommit hunnamed
    refine List.forall_mem_cons.2 ⟨⟨hpath, ?_⟩, ih (hfolder ▸ walk_put hwalk) hplain'⟩
    refine ⟨hrest.keeps (P := fun folder => folder.Leads _ here _) (fun _ _ _ => Leads.put)
      (hfolder ▸ hleads.put), ?_⟩
    refine hrest.keeps (P := fun folder => ∃ bytes, folder.files.get? _ = some bytes)
      (fun folder bytes place => ?_) ⟨_, by rw [hfolder, put, KeyMap.get?_insert, if_pos rfl]⟩
    rintro ⟨held, hheld⟩
    rw [put, KeyMap.get?_insert]
    split
    · exact ⟨bytes, rfl⟩
    · exact ⟨held, hheld⟩
  | refused hcommit _ ih => exact ih ((commitFile_error hcommit).2 ▸ hwalk) hplain

/-- A file in the directory stays as it is if none of the instances gets its name. -/
lemma get?_of_ne (h : out.Files dir compression ds out')
    (hwalk : out.folder.walk [] (names dir) = .ok (.dir here))
    (hcompression : ∀ c ∈ compression, '/' ∉ c.toList) (hplain : ∀ d ∈ ds, IsPlain d.extension)
    (hne : ∀ d ∈ ds, d.file compression ≠ file) :
    out'.folder.files.get? (key (here ++ [file])) =
      out.folder.files.get? (key (here ++ [file])) := by
  induction h with
  | nil => rfl
  | filed hcommit hunnamed _ ih =>
    obtain ⟨hplain, hplain'⟩ := List.forall_mem_cons.1 hplain
    obtain ⟨hne, hne'⟩ := List.forall_mem_cons.1 hne
    obtain ⟨-, -, hfolder⟩ := leads_of_commitFile hwalk hcompression hplain hcommit hunnamed
    rw [ih (hfolder ▸ walk_put hwalk) hplain' hne', hfolder, put, KeyMap.get?_insert,
      if_neg (key_concat_inj.not.2 hne)]
  | refused hcommit _ ih =>
    have hfolder := (commitFile_error hcommit).2
    rw [ih (hfolder ▸ hwalk) hplain hne, hfolder]

/-- The file of an instance holds what was committed, if no later instance gets its name. -/
lemma held (h : out.Files dir compression ds out')
    (hwalk : out.folder.walk [] (names dir) = .ok (.dir here))
    (hcompression : ∀ c ∈ compression, '/' ∉ c.toList) (hplain : ∀ d ∈ ds, IsPlain d.extension)
    {before after : List Filed} (hds : ds = before ++ d :: after)
    (hne : ∀ e ∈ after, e.file compression ≠ d.file compression) :
    out'.folder.files.get? (key (here ++ [d.file compression])) = some d.bytes := by
  induction h generalizing before with
  | nil => simp at hds
  | filed hcommit hunnamed hrest ih =>
    obtain ⟨hplain, hplain'⟩ := List.forall_mem_cons.1 hplain
    obtain ⟨-, -, hfolder⟩ := leads_of_commitFile hwalk hcompression hplain hcommit hunnamed
    rcases List.cons_eq_append_iff.1 hds with ⟨-, hcons⟩ | ⟨before', -, hds'⟩
    · obtain ⟨rfl, rfl⟩ := List.cons.inj hcons
      rw [hrest.get?_of_ne (hfolder ▸ walk_put hwalk) hcompression hplain' hne, hfolder, put,
        KeyMap.get?_insert, if_pos rfl]
    · exact ih (hfolder ▸ walk_put hwalk) hplain' hds'
  | refused hcommit _ ih => exact ih ((commitFile_error hcommit).2 ▸ hwalk) hplain hds

/-- Two instances get one path just if they clash. -/
lemma pairwise_path_eq_iff (h : out.Files dir compression ds out')
    (hwalk : out.folder.walk [] (names dir) = .ok (.dir here))
    (hcompression : ∀ c ∈ compression, '/' ∉ c.toList) (hplain : ∀ d ∈ ds, IsPlain d.extension) :
    ds.Pairwise fun d e => d.path = e.path ↔ d.Clashes e := by
  refine h.pairwise_unnamed.imp_of_mem fun {d e} hd he hunnamed => ?_
  have hpath := h.leads hwalk hcompression hplain
  rw [(hpath d hd).1, (hpath e he).1, join_inj, Filed.file, Filed.file,
    fileName_inj (hplain d hd).1 (hplain e he).1, stem_eq_iff, and_comm, Filed.Clashes]
  refine and_congr_right fun _ => ?_
  cases hnone : d.name.filter isFileStem with
  | some a => cases e.name.filter isFileStem <;> rfl
  | none =>
    cases e.name.filter isFileStem with
    | some b => rfl
    | none => exact iff_false_intro (hunnamed hnone).ne

end Files

/-- **What an outlet files.**  The files of instances that an outlet has filed in a directory lie in
this directory itself.  Their paths are distinct just if no two of the instances clash: have one
format and one name, or one of them a name that the other one is numbered by.  The file of an instance
holds what was committed for it, unless a later instance clashes with it. -/
theorem files_held {folder : Folder} {out' : Outlet}
    (hopen : intoDirectory folder dir compression = .ok out)
    (hcompression : ∀ c ∈ compression, '/' ∉ c.toList) (hplain : ∀ d ∈ ds, IsPlain d.extension)
    (hfiles : out.Files dir compression ds out') :
    (∃ here, folder.find dir = .ok (.dir here) ∧ ∀ d ∈ ds,
      ∃ file bytes, file ≠ "" ∧ '/' ∉ file.toList ∧ d.path = join dir file ∧
        out'.folder.find d.path = .ok (.file (here ++ [file]) bytes)) ∧
    ((ds.map (·.path)).Nodup ↔ ds.Pairwise fun d e => ¬d.Clashes e) ∧
    ∀ before d after, ds = before ++ d :: after → (∀ e ∈ after, ¬d.Clashes e) →
      ∃ place, out'.folder.find d.path = .ok (.file place d.bytes) := by
  -- an outlet is opened only where the directory is there already
  obtain ⟨here, hfind, hfolder⟩ : ∃ here, folder.find dir = .ok (.dir here) ∧ out.folder = folder := by
    unfold intoDirectory at hopen
    split at hopen
    next hdir =>
      unfold isDir at hdir
      split at hdir
      next here hfind =>
        cases hopen
        exact ⟨here, hfind, rfl⟩
      · cases hdir
    · cases hopen
  have hwalk : out.folder.walk [] (names dir) = .ok (.dir here) :=
    hfolder ▸ walk_names_of_find hfind
  have hleads := hfiles.leads hwalk hcompression hplain
  have hpaths := hfiles.pairwise_path_eq_iff hwalk hcompression hplain
  have hne : ∀ d ∈ ds, '/' ∉ (d.file compression).toList := fun d hd =>
    slash_notMem_fileName slash_notMem_stem (hplain d hd).2 hcompression
  refine ⟨⟨here, hfind, fun d hd => ?_⟩, ?_, fun before d after hds hafter => ?_⟩
  · obtain ⟨hpath, hlead, bytes, hbytes⟩ := hleads d hd
    refine ⟨d.file compression, bytes, fileName_ne_empty, hne d hd, hpath, ?_⟩
    rw [hlead.find_eq, hbytes]
  · rw [List.Nodup, List.pairwise_map]
    exact ⟨fun h => (h.and hpaths).imp fun ⟨hd, hiff⟩ => hiff.not.1 hd,
      fun h => (h.and hpaths).imp fun ⟨hd, hiff⟩ => hiff.not.2 hd⟩
  · subst hds
    have hclash := (List.pairwise_cons.1 (List.pairwise_append.1 hpaths).2.1).1
    obtain ⟨hpath, hlead, -⟩ := hleads d (List.mem_append_right _ List.mem_cons_self)
    refine ⟨here ++ [d.file compression], ?_⟩
    rw [hlead.find_eq, hfiles.held hwalk hcompression hplain rfl]
    intro e he heq
    refine hafter e he ((hclash e he).1 ?_)
    rw [hpath, (hleads e (List.mem_append_right _ (List.mem_cons_of_mem _ he))).1, heq]

/-- An instance without name between two of one name: the files of the last two hold what was committed
for them, and the first one has no file of its own. -/
theorem files_held_of_repeated_name :
    let folder := ({} : Folder).addDir "out"
    let out : Outlet := { target := .directory "out" none, folder }
    let first : Filed := ⟨some "a", "inc", [1], 0, "out/a.inc"⟩
    let second : Filed := ⟨none, "inc", [2], 0, "out/instance-1.inc"⟩
    let third : Filed := ⟨some "a", "inc", [3], 1, "out/a.inc"⟩
    intoDirectory folder "out" none = .ok out ∧
      ∃ out', out.Files "out" none [first, second, third] out' ∧
        ¬([first, second, third].map (·.path)).Nodup ∧
        (∃ place, out'.folder.find second.path = .ok (.file place second.bytes)) ∧
        ∃ place, out'.folder.find third.path = .ok (.file place third.bytes) := by
  intro folder out first second third
  have hdir : folder.isDir "out" = true := by decide +kernel
  have hopen : intoDirectory folder "out" none = .ok out := by rw [intoDirectory, if_pos hdir]
  let out₁ := (out.commitFile "out" none first.name first.extension first.bytes).2
  let out₂ := (out₁.commitFile "out" none second.name second.extension second.bytes).2
  let out₃ := (out₂.commitFile "out" none third.name third.extension third.bytes).2
  have hfiles₃ : out₂.Files "out" none [third] out₃ :=
    .of_ok (by decide +kernel) (by decide +kernel) (.nil out₃)
  have hfiles₂ : out₁.Files "out" none [second, third] out₃ :=
    .of_ok (by decide +kernel) (by decide +kernel) hfiles₃
  have hfiles : out.Files "out" none [first, second, third] out₃ :=
    .of_ok (by decide +kernel) rfl hfiles₂
  have hplain : ∀ d ∈ [first, second, third], IsPlain d.extension := by
    intro d hd
    simp only [List.mem_cons, List.not_mem_nil, or_false] at hd
    rcases hd with rfl | rfl | rfl <;> exact isPlain_extension (.exchange true)
  obtain ⟨-, hnodup, hheld⟩ := files_held hopen (by rintro c ⟨⟩) hplain hfiles
  have hstem : (some "a").filter isFileStem = some "a" := by decide +kernel
  have hnumber : "instance-" ++ toString (0 + 1) ≠ "a" := by decide +kernel
  have hclash : first.Clashes third := by simp [Filed.Clashes, first, third, hstem]
  have hapart : ∀ e ∈ [third], ¬second.Clashes e := by
    intro e he
    rw [List.mem_singleton.1 he]
    rintro ⟨-, hclash⟩
    simp only [second, third, hstem, Option.filter_none] at hclash
    exact hnumber hclash
  refine ⟨hopen, out₃, hfiles, fun h => ?_, ?_, ?_⟩
  · exact (List.pairwise_cons.1 (hnodup.1 h)).1 third (.tail _ (.head _)) hclash
  · exact hheld [first] second [third] rfl hapart
  · exact hheld [first, second] third [] rfl fun e he => absurd he List.not_mem_nil

/-- The second of two instances of one name takes the place of the first, and an instance without
name takes the place of one that is named as it is numbered: two commits return one path, and only the
later bytes can be read back. -/
theorem commitFile_replaces :
    let folder := ({} : Folder).addDir "out"
    let out : Outlet := { target := .directory "out" none, folder }
    let first := out.commitFile "out" none (some "instance-1") "inc" [1]
    let named := first.2.commitFile "out" none (some "instance-1") "inc" [2]
    let unnamed := first.2.commitFile "out" none none "inc" [2]
    folder.isDir "out" = true ∧ first.1 = .ok "out/instance-1.inc" ∧
      named.1 = .ok "out/instance-1.inc" ∧ unnamed.1 = .ok "out/instance-1.inc" ∧
      named.2.folder.files.entries = [("out/instance-1.inc", [2])] ∧
      unnamed.2.folder.files.entries = [("out/instance-1.inc", [2])] := by
  decide +kernel

end Outlet

end LinearInterchange
