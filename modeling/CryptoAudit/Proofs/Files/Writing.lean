import CryptoAudit.Files.Basic

/-!
# What writing a file changes

Writing a text to a path changes what stands at one place, the `target` of the path: the files are
the same but for this place (`sameBut_write`), and the path now leads to a file with this text
(`find_write`).

The files are compared place by place, where a directory is no more than a directory (`node?`). That
the other places are as before rests on what a target is (`Target`): it is in a directory, and it is
not a directory itself, so nothing can stand below it.
-/

namespace CryptoAudit

/-- What stands at a place, without what stands below it. -/
inductive Node where
  | file (bytes : ByteArray)
  | directory

namespace Tree

/-- A tree without what stands below its root. -/
def node : Tree → Node
  | .file bytes => .file bytes
  | .directory _ => .directory

/-- What stands at a place, without what stands below it. -/
def node? (t : Tree) (place : List String) : Option Node := (t.get? place).map node

/-- An entry that was put is found. -/
theorem lookup_putEntry_self (name : String) (t : Tree) (es : List (String × Tree)) :
    (putEntry name t es).lookup name = some t := by
  induction es with
  | nil => exact List.lookup_cons_self
  | cons e es ih =>
    rw [putEntry]
    split
    next hname =>
      subst hname
      exact List.lookup_cons_self
    next hname => rw [List.lookup_cons, beq_false_of_ne (Ne.symm hname), ih]

/-- Entries of other names are found as before. -/
theorem lookup_putEntry_of_ne {name other : String} (h : other ≠ name) (t : Tree)
    (es : List (String × Tree)) : (putEntry name t es).lookup other = es.lookup other := by
  induction es with
  | nil => rw [putEntry, List.lookup_cons, beq_false_of_ne h]
  | cons e es ih =>
    rw [putEntry]
    split
    next hname =>
      subst hname
      rw [List.lookup_cons, List.lookup_cons, beq_false_of_ne h]
    next => rw [List.lookup_cons, List.lookup_cons, ih]

/-- What stands at a place below another is found from there. -/
theorem get?_append (t : Tree) (place below : List String) :
    t.get? (place ++ below) = (t.get? place).bind (·.get? below) := by
  induction place generalizing t with
  | nil => rfl
  | cons name place ih =>
    rw [List.cons_append, get?, get?, Option.bind_assoc]
    exact congrArg _ (funext fun u => ih u)

/-- What was put at a place stands there. -/
theorem get?_put (t : Tree) (place : List String) (leaf : Tree) :
    (t.put place leaf).get? place = some leaf := by
  induction place generalizing t with
  | nil => rfl
  | cons name place ih =>
    rw [put, get?, entries, lookup_putEntry_self, Option.bind_some, ih]

theorem node?_cons (t : Tree) (name : String) (place : List String) :
    t.node? (name :: place) = (t.entries.lookup name).bind (·.node? place) := by
  rw [node?, get?, Option.map_bind]
  rfl

/-- There is nothing below a file. -/
theorem node?_cons_of_file {t : Tree} (h : t.isDirectory = false) (name : String)
    (place : List String) : t.node? (name :: place) = none := by
  cases t with
  | file => rfl
  | directory => cases h

/-- What stands at a place stands in a directory. -/
theorem node?_eq_directory_of_append {t : Tree} {place : List String} {name : String}
    (h : (t.node? (place ++ [name])).isSome) : t.node? place = some .directory := by
  rw [node?, Option.isSome_map, get?_append] at h
  rw [node?]
  cases hplace : t.get? place with
  | none =>
    rw [hplace] at h
    cases h
  | some u =>
    cases u with
    | directory => rfl
    | file =>
      rw [hplace] at h
      cases h

/-- A file in a directory, where there is no directory, changes nothing at other places. -/
theorem node?_put {t : Tree} {dir : List String} {es : List (String × Tree)} {name : String}
    (hdir : t.get? dir = some (.directory es)) (hfree : (es.lookup name).any isDirectory = false)
    (bytes : ByteArray) {other : List String} (hne : other ≠ dir ++ [name]) :
    (t.put (dir ++ [name]) (.file bytes)).node? other = t.node? other := by
  induction dir generalizing t other with
  | nil =>
    cases hdir
    cases other with
    | nil => rfl
    | cons first rest =>
      rw [List.nil_append, put, node?_cons, node?_cons, entries, entries]
      by_cases hfirst : first = name
      · rw [hfirst, lookup_putEntry_self, Option.bind_some]
        -- There is nothing below the file now, and there was nothing below what it replaces.
        cases rest with
        | nil => exact absurd (hfirst ▸ rfl) hne
        | cons next rest =>
          cases hold : es.lookup name with
          | none => rfl
          | some old =>
            rw [hold] at hfree
            exact (node?_cons_of_file hfree next rest).symm
      · rw [lookup_putEntry_of_ne hfirst]
  | cons step dir ih =>
    obtain ⟨child, hchild, hdir⟩ := Option.bind_eq_some_iff.1 hdir
    rw [List.cons_append, put, hchild, Option.getD_some]
    cases other with
    | nil =>
      cases t with
      | file => cases hchild
      | directory => rfl
    | cons first rest =>
      rw [node?_cons, node?_cons, entries]
      by_cases hfirst : first = step
      · rw [hfirst, lookup_putEntry_self, hchild, Option.bind_some, Option.bind_some]
        refine ih hdir fun hrest => hne ?_
        rw [hfirst, hrest, List.cons_append]
      · rw [lookup_putEntry_of_ne hfirst]

end Tree

namespace Files

/-- What stands at a place, without what stands below it. -/
def node? (fs : Files) (place : List String) : Option Node := fs.root.node? place

/-- The files differ at most in what stands at the place. -/
structure SameBut (place : List String) (fs fs' : Files) : Prop where
  here : fs'.here = fs.here
  nodes : ∀ other, other ≠ place → fs'.node? other = fs.node? other

/-- A path can be written to: it ends with a name in a directory, which is not the name of another
directory. -/
structure Target (fs : Files) (path : String) (dir : List String) (name : String) : Prop where
  nonempty : path ≠ ""
  segments : ∃ before, Path.segments path = before ++ [name] ∧
    fs.followAll (Path.isAbsolute path) before = .ok dir
  plain : ¬ (name = "" ∨ name = "." ∨ name = "..")
  free : ∃ es, fs.root.get? dir = some (.directory es) ∧
    (es.lookup name).any Tree.isDirectory = false

/-- Where a segment leads from a directory. -/
inductive Step (t : Tree) (place : List String) : String → List String → Prop where
  | stay {segment : String} (h : segment = "" ∨ segment = ".") : Step t place segment place
  | up : Step t place ".." place.dropLast
  | down {name : String} (plain : ¬ (name = "" ∨ name = "." ∨ name = ".."))
      (found : (t.node? (place ++ [name])).isSome) : Step t place name (place ++ [name])

section
variable {fs written : Files} {path text : String} {place dir : List String} {name : String}

theorem Target.node?_dir (h : fs.Target path dir name) : fs.root.node? dir = some .directory := by
  obtain ⟨es, hdir, -⟩ := h.free
  rw [Tree.node?, hdir]
  rfl

/-- No directory stands where a file can be written. -/
theorem Target.node?_ne_directory (h : fs.Target path dir name) :
    fs.root.node? (dir ++ [name]) ≠ some .directory := by
  obtain ⟨es, hdir, hfree⟩ := h.free
  rw [Tree.node?, Tree.get?_append, hdir, Option.bind_some, Tree.get?, Tree.entries]
  cases hold : es.lookup name with
  | none => exact nofun
  | some old =>
    rw [hold] at hfree
    cases old with
    | file => exact nofun
    | directory => cases hfree

/-- Writing a file changes what stands at its place only. -/
theorem Target.node?_put (h : fs.Target path dir name) (bytes : ByteArray) :
    ∀ other, other ≠ dir ++ [name] →
      (fs.root.put (dir ++ [name]) (.file bytes)).node? other = fs.root.node? other := by
  obtain ⟨es, hdir, hfree⟩ := h.free
  exact fun other hother => Tree.node?_put hdir hfree bytes hother

/-- The place of a target is a name in a directory that exists. -/
theorem exists_target (h : fs.target path = .ok place) :
    ∃ dir name, place = dir ++ [name] ∧ fs.Target path dir name := by
  unfold target at h
  cases hlast : (Path.segments path).getLast? with
  | none =>
    simp only [hlast] at h
    cases h
  | some name =>
    simp only [hlast] at h
    split at h
    next => cases h
    next hnonempty =>
      split at h
      next => cases h
      next hplain =>
        split at h
        next => cases h
        next dir hdir =>
          split at h
          next es hes =>
            split at h
            next => cases h
            next hfree =>
              cases h
              obtain ⟨before, hbefore⟩ := List.getLast?_eq_some_iff.1 hlast
              refine ⟨dir, name, rfl, hnonempty, ⟨before, hbefore, ?_⟩, hplain, es, hes, ?_⟩
              · rwa [hbefore, List.dropLast_concat] at hdir
              · rwa [Bool.not_eq_true] at hfree
          next => cases h

/-- A segment is followed if and only if it starts from a directory and makes a step: it stays, goes
up, or goes to an entry. -/
theorem follow_eq_ok_iff {t : Tree} {next : List String} {segment : String} :
    follow t place segment = .ok next ↔
      t.node? place = some .directory ∧ Step t place segment next := by
  unfold follow
  cases hplace : t.get? place with
  | none => simp [Tree.node?, hplace]
  | some u =>
    cases u with
    | file => simp [Tree.node?, Tree.node, hplace]
    | directory es =>
      have hdirectory : t.node? place = some .directory := by rw [Tree.node?, hplace]; rfl
      have hbelow : (t.node? (place ++ [segment])).isSome = (es.lookup segment).isSome := by
        rw [Tree.node?, Option.isSome_map, Tree.get?_append, hplace, Option.bind_some, Tree.get?,
          Tree.entries]
        cases es.lookup segment <;> rfl
      dsimp only
      constructor
      · intro h
        refine ⟨hdirectory, ?_⟩
        split at h
        next hstay =>
          cases h
          exact .stay hstay
        next hstay =>
          split at h
          next hup =>
            cases h
            exact hup ▸ .up
          next hup =>
            split at h
            next hfound =>
              cases h
              have hplain : ¬ (segment = "" ∨ segment = "." ∨ segment = "..") := by
                simpa [not_or, and_assoc] using And.intro hstay hup
              exact .down hplain (hbelow.trans hfound)
            next => cases h
      · rintro ⟨-, hstep⟩
        cases hstep with
        | stay hstay => exact if_pos hstay
        | up => rfl
        | down hplain hfound =>
          rw [hbelow] at hfound
          simp only [not_or] at hplain
          simp [hplain, hfound]

/-- A step that could be made before a file was written can be made afterwards. -/
theorem follow_mono {t u : Tree} (hfile : t.node? place ≠ some .directory)
    (hkept : ∀ other, other ≠ place → u.node? other = t.node? other)
    (hwritten : (u.node? place).isSome) {start next : List String} {segment : String}
    (h : follow t start segment = .ok next) : follow u start segment = .ok next := by
  rw [follow_eq_ok_iff] at h ⊢
  obtain ⟨hstart, hstep⟩ := h
  have hne : start ≠ place := by
    rintro rfl
    exact hfile hstart
  refine ⟨(hkept start hne).trans hstart, ?_⟩
  cases hstep with
  | stay hstay => exact .stay hstay
  | up => exact .up
  | down hplain hfound =>
    refine .down hplain ?_
    by_cases hplace : start ++ [segment] = place
    · rwa [hplace]
    · rwa [hkept _ hplace]

/-- Segments that could be followed before a file was written lead to the same place after it. -/
theorem foldlM_follow_mono {t u : Tree} (hfile : t.node? place ≠ some .directory)
    (hkept : ∀ other, other ≠ place → u.node? other = t.node? other)
    (hwritten : (u.node? place).isSome) {start next : List String} {segments : List String}
    (h : segments.foldlM (follow t) start = .ok next) :
    segments.foldlM (follow u) start = .ok next := by
  induction segments generalizing start with
  | nil => exact h
  | cons segment segments ih =>
    rw [List.foldlM_cons] at h ⊢
    cases hfirst : follow t start segment with
    | error e =>
      rw [hfirst] at h
      cases h
    | ok middle =>
      rw [hfirst] at h
      rw [follow_mono hfile hkept hwritten hfirst]
      exact ih h

/-- Bytes that a text was turned into are turned back into it. -/
theorem decode_toUTF8 (s : String) : decode s.toUTF8 = .ok s := by
  have hvalid : String.fromUTF8? s.toUTF8 = some s := dif_pos s.isValidUTF8
  rw [decode, hvalid]

/-- Writing succeeds if and only if there is a place for the file, and then puts it there. -/
theorem write_eq_ok_iff : fs.write path text = .ok written ↔
    ∃ place, fs.target path = .ok place ∧
      written = { fs with root := fs.root.put place (.file text.toUTF8) } := by
  unfold write
  cases fs.target path with
  | error e => exact ⟨nofun, nofun⟩
  | ok place => simp [eq_comm]

/-- Writing a file changes what stands at the target of its path and nothing else. -/
theorem sameBut_write (h : fs.write path text = .ok written) :
    ∃ place, fs.target path = .ok place ∧ fs.SameBut place written := by
  obtain ⟨place, htarget, rfl⟩ := write_eq_ok_iff.1 h
  obtain ⟨dir, name, rfl, hname⟩ := exists_target htarget
  exact ⟨_, htarget, rfl, hname.node?_put _⟩

/-- Where a text was written it is found. -/
theorem find_write (h : fs.write path text = .ok written) :
    written.find path = .ok (.file text.toUTF8) := by
  obtain ⟨place, htarget, rfl⟩ := write_eq_ok_iff.1 h
  obtain ⟨dir, name, rfl, hname⟩ := exists_target htarget
  obtain ⟨before, hsegments, hbefore⟩ := hname.segments
  have hkept := hname.node?_put text.toUTF8
  have hget := Tree.get?_put fs.root (dir ++ [name]) (.file text.toUTF8)
  generalize fs.root.put (dir ++ [name]) (.file text.toUTF8) = root at hkept hget ⊢
  have hfound : (root.node? (dir ++ [name])).isSome := by
    rw [Tree.node?, hget]
    rfl
  -- The way to the directory does not lead through the file, so it is as before.
  have hdir := foldlM_follow_mono hname.node?_ne_directory hkept hfound hbefore
  have hlast : follow root dir name = .ok (dir ++ [name]) :=
    follow_eq_ok_iff.2 ⟨(hkept dir (by simp)).trans hname.node?_dir, .down hname.plain hfound⟩
  have hfollow : followAll { fs with root } (Path.isAbsolute path) (Path.segments path) =
      .ok (dir ++ [name]) := by
    rw [followAll, hsegments, List.foldlM_append, hdir]
    change follow root dir name >>= pure = _
    rw [hlast]
    rfl
  rw [find, if_neg hname.nonempty, hfollow]
  simp only [hget]

theorem read_write (h : fs.write path text = .ok written) : written.read path = .ok text := by
  rw [read, find_write h]
  exact decode_toUTF8 text

/-! ## Names in the working directory -/

/-- The path is a single name. -/
structure IsName (name : String) : Prop where
  noSlash : '/' ∉ name.toList
  plain : ¬ (name = "" ∨ name = "." ∨ name = "..")

instance (name : String) : Decidable (IsName name) :=
  decidable_of_iff ('/' ∉ name.toList ∧ ¬ (name = "" ∨ name = "." ∨ name = ".."))
    ⟨fun h => ⟨h.1, h.2⟩, fun h => ⟨h.1, h.2⟩⟩

/-- A text without the separator is one part. -/
theorem split_of_notMem {c : Char} {cs : List Char} (h : c ∉ cs) : Path.split c cs = [cs] := by
  induction cs with
  | nil => rfl
  | cons d cs ih =>
    obtain ⟨hd, hcs⟩ := not_or.1 (mt List.mem_cons.2 h)
    rw [Path.split, if_neg (Ne.symm hd), ih hcs]

theorem IsName.segments (h : IsName name) : Path.segments name = [name] := by
  rw [Path.segments, split_of_notMem h.noSlash, List.map_singleton, String.ofList_toList]

theorem IsName.isAbsolute (h : IsName name) : Path.isAbsolute name = false := by
  rw [Path.isAbsolute, beq_eq_false_iff_ne]
  exact fun hhead => h.noSlash (List.mem_of_head? hhead)

theorem IsName.followAll_eq (h : IsName name) (fs : Files) :
    fs.followAll (Path.isAbsolute name) (Path.segments name) = follow fs.root fs.here name := by
  rw [h.isAbsolute, h.segments, followAll, List.foldlM_cons]
  exact bind_pure _

/-- A name is looked for in the working directory. -/
theorem IsName.has_eq (h : IsName name) (fs : Files) :
    fs.has name = (fs.node? (fs.here ++ [name])).isSome := by
  have hnonempty : name ≠ "" := fun hempty => h.plain (.inl hempty)
  rw [has, find, if_neg hnonempty, h.followAll_eq]
  cases hfollow : follow fs.root fs.here name with
  | ok next =>
    obtain ⟨-, hstep⟩ := follow_eq_ok_iff.1 hfollow
    cases hstep with
    | stay hstay => exact absurd (hstay.elim .inl (.inr ∘ .inl)) h.plain
    | up => exact absurd (.inr (.inr rfl)) h.plain
    | down _ hfound =>
      rw [node?, hfound]
      rw [Tree.node?, Option.isSome_map] at hfound
      obtain ⟨u, hu⟩ := Option.isSome_iff_exists.1 hfound
      simp only [hu]
      rfl
  | error e =>
    cases hfound : (fs.node? (fs.here ++ [name])).isSome with
    | false => rfl
    | true =>
      have hstep := follow_eq_ok_iff.2
        ⟨Tree.node?_eq_directory_of_append hfound, .down h.plain hfound⟩
      rw [hfollow] at hstep
      cases hstep

/-- A name is written in the working directory. -/
theorem IsName.target_eq (h : IsName name) (htarget : fs.target name = .ok place) :
    place = fs.here ++ [name] := by
  obtain ⟨dir, last, rfl, hlast⟩ := exists_target htarget
  obtain ⟨before, hsegments, hbefore⟩ := hlast.segments
  rw [h.segments, ← List.nil_append [name]] at hsegments
  obtain ⟨rfl, hname⟩ := List.append_inj' hsegments rfl
  rw [h.isAbsolute] at hbefore
  cases hbefore
  rw [← hname]
  rfl

end

end Files

end CryptoAudit
