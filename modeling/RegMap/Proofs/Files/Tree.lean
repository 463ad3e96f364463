import Mathlib.Data.List.Basic
import RegMap.Files.Tree

/-!
What a file that is written changes of a tree. It is found at its place and everything else is where
it was; no path to a file comes to lead anywhere else. So what is written in turn can be told from
where the paths led before.
-/

set_option autoImplicit false

namespace RegMap.Files

theorem ok_of_bind {α β : Type} {x : Except Fault α} {f : α → Except Fault β} {b : β}
    (h : x >>= f = .ok b) : ∃ a, x = .ok a ∧ f a = .ok b := by
  cases x with
  | error fault => cases h
  | ok a => exact ⟨a, rfl, h⟩

theorem names_append (path rest : String) :
    names (path ++ "/" ++ rest) = names path ++ names rest := by
  unfold names
  have hslash : (path ++ "/" ++ rest).toList = path.toList ++ '/' :: rest.toList := by simp
  simp only [hslash, List.splitOn_eq_splitOnP]
  rw [List.splitOnP_append_cons path.toList rest.toList (by rfl), List.map_append]

theorem names_singleton {name : String} (h : '/' ∉ name.toList) : names name = [name] := by
  have hone : name.toList.splitOn '/' = [name.toList] := by
    rw [List.splitOn_eq_splitOnP]
    refine List.splitOnP_eq_singleton fun c hc => beq_eq_false_iff_ne.mpr ?_
    rintro rfl
    exact h hc
  rw [names, hone, List.map_singleton, String.ofList_toList]

theorem isAbsolute_append {path : String} (h : path ≠ "") (rest : String) :
    isAbsolute (path ++ rest) = isAbsolute path := by
  have hne : path.toList ≠ [] := fun hnil => h (String.toList_eq_nil_iff.mp hnil)
  simp only [isAbsolute, String.toList_append, List.head?_append_of_ne_nil _ hne]

namespace Tree

variable {t : Tree} {l l' d : Location} {n : Node} {content : Bytes}

theorem lookup_filter_ne {nodes : List (Location × Node)} (h : l' ≠ l) :
    (nodes.filter (·.1 != l)).lookup l' = nodes.lookup l' := by
  induction nodes with
  | nil => rfl
  | cons x nodes ih =>
    obtain ⟨k, n⟩ := x
    by_cases hk : k = l
    · have hne : (l' == k) = false := by simpa [hk] using h
      rw [List.filter_cons_of_neg (by simp [hk]), ih, List.lookup_cons, hne]
    · rw [List.filter_cons_of_pos (by simpa using hk), List.lookup_cons, List.lookup_cons, ih]

theorem node?_put_self (h : l ≠ []) : (t.put l n).node? l = some n := by
  simp [node?, put, h]

theorem node?_put_of_ne (h : l' ≠ l) : (t.put l n).node? l' = t.node? l' := by
  have hne : (l' == l) = false := beq_eq_false_iff_ne.mpr h
  simp only [node?, put, List.lookup_cons, hne, lookup_filter_ne h]

theorem node?_ne_directory (h : t.node? l ≠ some .directory) : l ≠ [] := by
  rintro rfl
  exact h (if_pos rfl)

theorem start_put (path : String) : (t.put l n).start path = t.start path := rfl

theorem walk_append (t : Tree) (l : Location) (some more : List String) :
    t.walk l (some ++ more) = t.walk l some >>= fun l' => t.walk l' more := by
  induction some generalizing l with
  | nil => rfl
  | cons name some ih =>
    simp only [List.cons_append, walk, ih]
    split
    · rfl
    · rfl
    · split_ifs <;> rfl

/-- What leads from one name to the next is directories, which a file put elsewhere leaves alone. -/
theorem walk_put (h : t.node? l ≠ some .directory) (names : List String) (a : Location) :
    (t.put l (.file content)).walk a names = .ok d ↔ t.walk a names = .ok d := by
  induction names generalizing a with
  | nil => rfl
  | cons name names ih =>
    by_cases ha : a = l
    · subst ha
      rw [walk, walk, node?_put_self (node?_ne_directory h)]
      cases hn : t.node? a with
      | none => simp
      | some node =>
        cases node with
        | directory => exact absurd hn h
        | file content => rfl
    · rw [walk, walk, node?_put_of_ne ha]
      split
      · rfl
      · rfl
      · split_ifs
        · exact ih a
        · exact ih _
        · rfl
        · exact ih _

theorem walk_put_of_none (h : t.node? l = none) {names : List String} {a : Location}
    (hwalk : t.walk a names = .ok d) : (t.put l n).walk a names = .ok d := by
  induction names generalizing a with
  | nil => exact hwalk
  | cons name names ih =>
    have ha : a ≠ l := by
      rintro rfl
      rw [walk, h] at hwalk
      cases hwalk
    rw [walk] at hwalk ⊢
    rw [node?_put_of_ne ha]
    split at hwalk
    · cases hwalk
    · cases hwalk
    · split_ifs at hwalk ⊢
      · exact ih hwalk
      · exact ih hwalk
      · exact ih hwalk

theorem locate_eq_ok_iff {path : String} : t.locate path = .ok l ↔
    checkPath path = .ok () ∧ t.walk (t.start path) (names path) = .ok l := by
  unfold locate
  cases checkPath path with
  | error fault => exact ⟨nofun, nofun⟩
  | ok _ => exact ⟨fun h => ⟨rfl, h⟩, fun h => h.2⟩

theorem target_eq_ok_iff {path : String} : t.target path = .ok l ↔
    path.toList.getLast? ≠ some '/' ∧ t.locate path = .ok l ∧ t.node? l ≠ some .directory := by
  unfold target
  constructor
  · intro h
    obtain ⟨-, -, h⟩ := ok_of_bind h
    split at h
    · obtain ⟨-, -, h⟩ := ok_of_bind h
      cases h
    · next hslash =>
      obtain ⟨l', hl', h⟩ := ok_of_bind h
      split at h
      · cases h
      · next hdir =>
        obtain rfl := Except.ok.inj h
        exact ⟨hslash, hl', hdir⟩
  · rintro ⟨hslash, hl, hdir⟩
    rw [(locate_eq_ok_iff.mp hl).1, hl]
    refine (if_neg hslash).trans ?_
    dsimp only [bind, Except.bind]
    split
    · next hn => exact absurd hn hdir
    · rfl

/-- A file that was written stays a file, so no other path leads through it before or after. -/
theorem target_put (h : t.node? l ≠ some .directory) (path : String) :
    (t.put l (.file content)).target path = .ok l' ↔ t.target path = .ok l' := by
  have hnode : (t.put l (.file content)).node? l' = some .directory ↔
      t.node? l' = some .directory := by
    by_cases hl : l' = l
    · rw [hl, node?_put_self (node?_ne_directory h)]
      exact ⟨nofun, fun hd => absurd hd h⟩
    · rw [node?_put_of_ne hl]
  rw [target_eq_ok_iff, target_eq_ok_iff, locate_eq_ok_iff, locate_eq_ok_iff, start_put, walk_put h,
    ne_eq, ne_eq, hnode]

/-- Paths that led somewhere lead there still. -/
theorem locate_put (h : t.node? l ≠ some .directory) (path : String) :
    (t.put l (.file content)).locate path = .ok d ↔ t.locate path = .ok d := by
  rw [locate_eq_ok_iff, locate_eq_ok_iff, start_put, walk_put h]

theorem read_eq_ok_iff {path : String} : t.read path = .ok content ↔
    ∃ l, t.locate path = .ok l ∧ t.node? l = some (.file content) := by
  unfold read
  constructor
  · intro h
    obtain ⟨l, hl, h⟩ := ok_of_bind h
    refine ⟨l, hl, ?_⟩
    split at h
    · next hnode => rw [hnode, Except.ok.inj h]
    · cases h
    · cases h
  · rintro ⟨l, hl, hnode⟩
    rw [hl]
    simp [bind, Except.bind, hnode]

theorem write_eq_ok_iff {path : String} {after : Tree} : t.write path content = .ok after ↔
    ∃ l, t.target path = .ok l ∧ after = t.put l (.file content) := by
  unfold write
  constructor
  · intro h
    obtain ⟨l, hl, h⟩ := ok_of_bind h
    exact ⟨l, hl, (Except.ok.inj h).symm⟩
  · rintro ⟨l, hl, rfl⟩
    rw [hl]
    rfl

theorem walk_of_filter {names : List String} {a : Location}
    (h : t.walk a (names.filter (· != "")) = .ok d) (hd : t.node? d = some .directory) :
    t.walk a names = .ok d := by
  induction names generalizing a with
  | nil => exact h
  | cons name names ih =>
    by_cases hname : name = ""
    · rw [List.filter_cons_of_neg (by simp [hname])] at h
      have ha : t.node? a = some .directory := by
        cases hrest : names.filter (· != "") with
        | nil =>
          rw [hrest] at h
          obtain rfl := Except.ok.inj h
          exact hd
        | cons first rest =>
          rw [hrest, walk] at h
          split at h
          · cases h
          · cases h
          · assumption
      rw [walk, ha]
      exact (if_pos (.inl hname)).trans (ih h)
    · rw [List.filter_cons_of_pos (by simpa using hname)] at h
      rw [walk] at h ⊢
      split at h
      · cases h
      · cases h
      · split_ifs at h ⊢
        · exact ih h
        · exact ih h
        · exact ih h

def LeadsTo (t : Tree) (path : String) (d : Location) : Prop :=
  t.locate path = .ok d ∧ t.node? d = some .directory

theorem isDirectory_iff {path : String} : t.isDirectory path = true ↔ ∃ d, t.LeadsTo path d := by
  unfold isDirectory LeadsTo
  cases t.locate path with
  | error fault => simp
  | ok d => simp

theorem leadsTo_of_makeDirectory {path : String} {t' : Tree}
    (h : t.makeDirectory path = .ok t') : ∃ d, t'.LeadsTo path d := by
  unfold makeDirectory at h
  obtain ⟨⟨⟩, hcheck, h⟩ := ok_of_bind h
  obtain ⟨d, hwalk, h⟩ := ok_of_bind h
  split at h
  · cases h
  · next hnone =>
    obtain rfl := Except.ok.inj h
    have hd : (t.put d .directory).node? d = some .directory := by
      refine node?_put_self fun hnil => ?_
      rw [hnil, node?, if_pos rfl] at hnone
      cases hnone
    exact ⟨d, locate_eq_ok_iff.mpr ⟨hcheck, walk_of_filter (walk_put_of_none hnone hwalk) hd⟩, hd⟩

/-- A file of the name can be written in the directory: neither the name nor the whole path is too
long, there is no NUL in it, and no directory has the name. -/
def Fits (t : Tree) (directory : String) (d : Location) (name : String) : Prop :=
  checkPath (join directory name) = .ok () ∧ name.utf8ByteSize ≤ maxNameBytes ∧
    t.node? (d ++ [name]) ≠ some .directory

variable {directory name : String}

theorem walk_name (hd : t.node? d = some .directory) (hempty : name ≠ "") (hdot : name ≠ ".")
    (hdots : name ≠ "..") :
    t.walk d [name] = .ok l ↔ l = d ++ [name] ∧ name.utf8ByteSize ≤ maxNameBytes := by
  rw [walk, hd]
  dsimp only
  rw [if_neg (not_or.mpr ⟨hempty, hdot⟩), if_neg hdots]
  split_ifs with hlong
  · exact ⟨nofun, fun h => absurd h.2 (Nat.not_le.mpr hlong)⟩
  · exact ⟨fun h => ⟨(Except.ok.inj h).symm, Nat.not_lt.mp hlong⟩, fun h => h.1 ▸ rfl⟩

theorem ne_empty_of_checkPath {path : String} (h : checkPath path = .ok ()) : path ≠ "" := by
  rintro rfl
  cases h

theorem eq_of_walk_empty {a : Location} (h : t.walk a [""] = .ok d) : a = d := by
  rw [walk] at h
  split at h
  · cases h
  · cases h
  · exact Except.ok.inj ((if_pos (.inl rfl)).symm.trans h)

theorem walk_join (h : t.LeadsTo directory d) (hslash : '/' ∉ name.toList) :
    t.walk (t.start (join directory name)) (names (join directory name)) = t.walk d [name] := by
  obtain ⟨hcheck, hwalk⟩ := locate_eq_ok_iff.mp h.1
  have hne := ne_empty_of_checkPath hcheck
  have hrelative : isAbsolute name = false := by
    rw [isAbsolute, beq_eq_false_iff_ne]
    exact fun hhead => hslash (List.mem_of_head? hhead)
  rw [join, hrelative, if_neg Bool.false_ne_true]
  split_ifs with hlast
  · obtain ⟨before, hbefore⟩ := List.getLast?_eq_some_iff.mp hlast
    have hsplit : directory = String.ofList before ++ "/" ++ "" := by
      rw [← String.toList_inj, hbefore]
      simp
    have hjoin : directory ++ name = String.ofList before ++ "/" ++ name := by
      rw [hsplit, String.append_empty]
    have hstart : t.start (directory ++ name) = t.start directory := by
      rw [start, start, isAbsolute_append hne]
    have hnames : names directory = names (String.ofList before) ++ [""] := by
      rw [hsplit, names_append]
      rfl
    rw [hnames, walk_append] at hwalk
    obtain ⟨e, he, hwalk⟩ := ok_of_bind hwalk
    obtain rfl := eq_of_walk_empty hwalk
    rw [hstart, hjoin, names_append, names_singleton hslash, walk_append, he]
    rfl
  · have hstart : t.start (directory ++ "/" ++ name) = t.start directory := by
      rw [String.append_assoc, start, start, isAbsolute_append hne]
    rw [hstart, names_append, names_singleton hslash, walk_append, hwalk]
    rfl

theorem getLast?_join (hempty : name ≠ "") (hslash : '/' ∉ name.toList) :
    (join directory name).toList.getLast? ≠ some '/' := by
  have hne : name.toList ≠ [] := fun hnil => hempty (String.toList_eq_nil_iff.mp hnil)
  have hlast := List.getLast?_eq_some_getLast hne
  have hjoin : (join directory name).toList.getLast? = some (name.toList.getLast hne) := by
    rw [join]
    split_ifs <;> simp [List.getLast?_append, List.getLast?_cons, hlast]
  rw [hjoin]
  exact fun h => hslash (Option.some.inj h ▸ List.getLast_mem hne)

/-- A name without a slash is written directly in the directory, if it fits. -/
theorem target_join (h : t.LeadsTo directory d) (hslash : '/' ∉ name.toList) (hempty : name ≠ "")
    (hdot : name ≠ ".") (hdots : name ≠ "..") :
    t.target (join directory name) = .ok l ↔ l = d ++ [name] ∧ t.Fits directory d name := by
  rw [target_eq_ok_iff, locate_eq_ok_iff, walk_join h hslash, walk_name h.2 hempty hdot hdots, Fits]
  constructor
  · rintro ⟨-, ⟨hcheck, rfl, hlong⟩, hdir⟩
    exact ⟨rfl, hcheck, hlong, hdir⟩
  · rintro ⟨rfl, hcheck, hlong, hdir⟩
    exact ⟨getLast?_join hempty hslash, ⟨hcheck, rfl, hlong⟩, hdir⟩

end Tree

section

variable {t after : Tree} {path : String} {result : Except Fault Unit}

theorem bind_run {α β : Type} (x : StateM Tree α) (f : α → StateM Tree β) (t : Tree) :
    (x >>= f) t = f (x t).1 (x t).2 := rfl

theorem leadsTo_of_made
    (h : (Access.makeDirectory path : StateM Tree (Except Fault Unit)) t = (result, after))
    (hresult : result = .ok ()) : ∃ d, after.LeadsTo path d := by
  subst hresult
  simp only [Access.makeDirectory, update] at h
  split at h
  · next made hmade =>
    obtain ⟨-, rfl⟩ := Prod.mk.inj h
    exact Tree.leadsTo_of_makeDirectory hmade
  · cases (Prod.mk.inj h).1

theorem leadsTo_of_settle (hresult : result = .ok () → ∃ d, t.LeadsTo path d)
    (h : (settle path result : StateM Tree (Except Fault Unit)) t = (.ok (), after)) :
    ∃ d, after.LeadsTo path d := by
  cases result with
  | ok _ =>
    obtain ⟨-, rfl⟩ := Prod.mk.inj h
    exact hresult rfl
  | error fault =>
    rw [settle, bind_run] at h
    split at h
    · next hdir =>
      obtain ⟨-, rfl⟩ := Prod.mk.inj h
      exact Tree.isDirectory_iff.mp hdir
    · cases (Prod.mk.inj h).1

theorem leadsTo_of_makeFrom {absolute : Bool} {outer : List String}
    (h : (makeFrom absolute outer path : StateM Tree (Except Fault Unit)) t = (.ok (), after)) :
    ∃ d, after.LeadsTo path d := by
  have hsettled (t : Tree) (h : (Access.makeDirectory path >>= settle path :
      StateM Tree (Except Fault Unit)) t = (.ok (), after)) : ∃ d, after.LeadsTo path d := by
    rw [bind_run] at h
    exact leadsTo_of_settle (leadsTo_of_made rfl) h
  cases outer with
  | nil => exact hsettled t h
  | cons name outer =>
    rw [makeFrom, bind_run] at h
    cases hmade : (Access.makeDirectory path : StateM Tree (Except Fault Unit)) t with
    | mk result made =>
      have hresult := leadsTo_of_made hmade
      rw [hmade] at h
      cases result with
      | ok _ => exact leadsTo_of_settle hresult h
      | error fault =>
        cases fault with
        | notFound =>
          dsimp only at h
          rw [bind_run] at h
          cases houter : (makeFrom absolute outer (ofNames absolute (name :: outer).reverse) :
              StateM Tree (Except Fault Unit)) made with
          | mk result made =>
            rw [houter] at h
            cases result with
            | error fault => cases (Prod.mk.inj h).1
            | ok _ => exact hsettled made h
        | _ => exact leadsTo_of_settle hresult h

theorem leadsTo_of_makeDirectories
    (h : (makeDirectories path : StateM Tree (Except Fault Unit)) t = (.ok (), after)) :
    ∃ d, after.LeadsTo path d := leadsTo_of_makeFrom h

end

end RegMap.Files
