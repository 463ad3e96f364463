import RegMap.Proofs.Description.Exchanged

set_option autoImplicit false

namespace RegMap.Description

open Markup

/-- Behind the name of a tag, the text gives it the attributes. Their names in XML have stricter
rules than the keys here. -/
structure Worded (attributes : List Attribute) (text : List Char) : Prop where
  laid : Attribute.Laid attributes text
  apart : ∀ c ∈ text.head?, isSpace c
  keys : ∀ a ∈ attributes, Paired a.key

def endsLoading (policy : Policy) (attributes : List Attribute) (key : String) : Bool :=
  (numberOf policy attributes key 0).result.toOption.isNone

/-- The keys of numbers that are read in turn, up to the first which ends loading. -/
def numbersRead (policy : Policy) (attributes : List Attribute) : List String → List String
  | [] => []
  | key :: keys =>
    key :: if endsLoading policy attributes key then [] else numbersRead policy attributes keys

def groupKeys (policy : Policy) (attributes : List Attribute) : List String :=
  "name" :: if valueOf attributes "name" = "" then []
    else numbersRead policy attributes groupNumbers

def registerKeys (policy : Policy) (attributes : List Attribute) : List String :=
  "name" :: "type" :: match typeOf attributes with
    | .error _ => []
    | .ok type => numbersRead policy attributes ("width" ::
        if numberSaid attributes "width" 1 = 0 then []
        else "default" :: if type = .intFixed then ["int_value"] else [])

/-- The keys that loading reads of an element, where `inGroup` says whether a group takes in
registers. -/
def keysRead (policy : Policy) (inGroup : Bool) (name : List Char) (attributes : List Attribute) :
    List String :=
  if name = groupTag then groupKeys policy attributes
  else if name = registerTag ∧ inGroup then registerKeys policy attributes
  else []

def SameValues (keys : List String) (xs ys : List Attribute) : Prop :=
  ∀ key ∈ keys, valueOf xs key = valueOf ys key

section

variable {α : Type} {policy : Policy} {settings : Settings} {p : Progress} {key : String}
  {keys : List String} {default n : Nat} {xs ys extra : List Attribute} {tag tag' : Tag}
  {name text : List Char}

theorem valueOf_perm (h : xs.Perm ys) (hd : (xs.map Attribute.key).Nodup) (key : String) :
    valueOf xs key = valueOf ys key := by
  have hd' : (ys.map Attribute.key).Nodup := (h.map _).nodup_iff.mp hd
  have hfind : xs.find? (·.key == key.toList) = ys.find? (·.key == key.toList) :=
    Option.ext fun a => by rw [find?_key_iff hd, find?_key_iff hd', h.mem_iff]
  unfold valueOf
  rw [hfind]

theorem valueOf_append (h : ∀ x ∈ extra, x.key ≠ key.toList) :
    valueOf (xs ++ extra) key = valueOf xs key := by
  have hnone : extra.find? (·.key == key.toList) = none := by simpa using h
  unfold valueOf
  rw [List.find?_append, hnone, Option.or_none]

theorem numberOf_congr (policy : Policy) (h : valueOf xs key = valueOf ys key) (default : Nat) :
    numberOf policy xs key default = numberOf policy ys key default := by
  simp only [numberOf, h]

theorem endsLoading_of_ok (h : (numberOf policy xs key default).result = .ok n) :
    endsLoading policy xs key = false := by
  unfold endsLoading
  unfold numberOf at h ⊢
  dsimp only at h ⊢
  split at h
  · next hblank => rw [if_pos hblank]; rfl
  · next hgiven => rw [if_neg hgiven, h]; rfl

/-- A number is read, and what is read behind it is read if it does not end loading. -/
theorem bind_numberOf_congr {f g : Nat → Loading α}
    (h : SameValues (numbersRead policy xs (key :: keys)) xs ys)
    (hbehind : ∀ n, (numberOf policy xs key default).result = .ok n →
      SameValues (numbersRead policy xs keys) xs ys → f n = g n) :
    numberOf policy xs key default >>= f = numberOf policy ys key default >>= g := by
  obtain ⟨hfirst, hmore⟩ := List.forall_mem_cons.mp h
  rw [← numberOf_congr policy hfirst]
  refine Loading.bind_congr_ok fun n hn => hbehind n hn ?_
  rwa [endsLoading_of_ok hn, if_neg Bool.false_ne_true] at hmore

theorem busOf_congr (h : SameValues (numbersRead settings.policy xs groupNumbers) xs ys) :
    busOf settings xs = busOf settings ys := by
  refine bind_numberOf_congr h fun addressWidth _ h => ?_
  refine bind_numberOf_congr h fun baseAddress _ h => ?_
  refine bind_numberOf_congr h fun dataWidth _ h => ?_
  exact bind_numberOf_congr h fun memoryMapped _ _ => rfl

theorem typeOf_congr (hname : valueOf xs "name" = valueOf ys "name")
    (htype : valueOf xs "type" = valueOf ys "type") : typeOf xs = typeOf ys := by
  simp only [typeOf, hname, htype]

theorem readGroup_congr (h : tag.attributes = .ok xs) (h' : tag'.attributes = .ok ys)
    (hs : SameValues (groupKeys settings.policy xs) xs ys) :
    readGroup settings tag = readGroup settings tag' := by
  obtain ⟨hname, hnumbers⟩ := List.forall_mem_cons.mp hs
  simp only [readGroup, attributesOf_eq_pure h, attributesOf_eq_pure h', pure_bind, ← hname]
  split
  · rfl
  · next hgiven =>
    rw [if_neg hgiven] at hnumbers
    rw [busOf_congr hnumbers]

theorem readSpec_congr (h : tag.attributes = .ok xs) (h' : tag'.attributes = .ok ys)
    (hs : SameValues (registerKeys policy xs) xs ys) :
    readSpec policy tag = readSpec policy tag' := by
  obtain ⟨hname, hs⟩ := List.forall_mem_cons.mp hs
  obtain ⟨htype, hs⟩ := List.forall_mem_cons.mp hs
  simp only [readSpec, attributesOf_eq_pure h, attributesOf_eq_pure h', pure_bind, ← hname,
    ← typeOf_congr hname htype]
  refine Loading.bind_congr_ok fun found hfound => ?_
  cases htypeOf : typeOf xs with
  | error e =>
    rw [htypeOf] at hfound
    rw [recover_none hfound]
  | ok type =>
    obtain rfl : some type = found := by
      rw [htypeOf] at hfound
      cases policy <;> exact Except.ok.inj hfound
    rw [htypeOf] at hs
    refine bind_numberOf_congr hs fun width hwidth hs => ?_
    rw [← numberSaid_of_ok hwidth] at hs
    split
    · rfl
    · next hfit =>
      rw [if_neg hfit] at hs
      refine bind_numberOf_congr hs fun resetValue _ hs => ?_
      split
      · next hint =>
        rw [if_pos hint] at hs
        exact bind_numberOf_congr hs fun vector _ _ => rfl
      · rfl

theorem register_congr (h : tag.attributes = .ok xs) (h' : tag'.attributes = .ok ys)
    (hs : p.current.isSome → SameValues (registerKeys policy xs) xs ys) :
    p.register policy tag = p.register policy tag' := by
  unfold Progress.register
  split
  · rfl
  · next group hgroup => rw [readSpec_congr h h' (hs (by rw [hgroup]; rfl))]

theorem sameValues_of_perm (hp : ys.Perm (xs ++ extra))
    (hd : ((xs ++ extra).map Attribute.key).Nodup)
    (hextra : ∀ x ∈ extra, ∀ key ∈ keys, x.key ≠ key.toList) :
    SameValues keys xs ys := by
  intro key hkey
  have hd' : (ys.map Attribute.key).Nodup := (hp.map _).nodup_iff.mpr hd
  rw [valueOf_perm hp hd', valueOf_append fun x hx => hextra x hx key hkey]

theorem step_congr (hn : tag.name = name) (hn' : tag'.name = name) (h : tag.attributes = .ok xs)
    (h' : tag'.attributes = .ok ys)
    (hs : SameValues (keysRead settings.policy p.current.isSome name xs) xs ys) :
    p.step settings (.start tag) = p.step settings (.start tag') ∧
      p.step settings (.empty tag) = p.step settings (.empty tag') := by
  simp only [Progress.step, hn, hn']
  by_cases hg : name = groupTag
  · rw [keysRead, if_pos hg] at hs
    simp only [if_pos hg, readGroup_congr h h' hs, and_self]
  · simp only [if_neg hg]
    by_cases hr : name = registerTag
    · have hregister : p.register settings.policy tag = p.register settings.policy tag' := by
        refine register_congr h h' fun hgroup => ?_
        rwa [keysRead, if_neg hg, if_pos ⟨hr, hgroup⟩] at hs
      simp only [if_pos hr, hregister, and_self]
    · simp only [if_neg hr, and_self]

namespace Worded

variable (h : Worded xs text)
include h

theorem passes : Passes text := h.laid.passes fun a ha => (h.keys a ha).passes

theorem reads (hname : IsPlain name) (hd : (xs.map Attribute.key).Nodup) :
    (⟨name ++ text⟩ : Tag).Reads name xs :=
  reads_of_laid (fun c hc => (hname.forall_mem c hc).1) h.apart h.laid hd

end Worded

/-- Whether a text has the attributes can be found out by reading it. -/
theorem worded_of_readEnd (h : Attribute.readEnd 0 [] text = .ok xs)
    (hhead : text.head?.all isSpace)
    (hkeys : xs.all fun a => a.key.all fun c => !(['>', '"', '\''].contains c)) :
    Worded xs text where
  laid := (Attribute.readEnd_eq_ok_iff.mp h).1
  apart := fun c hc => by rwa [Option.mem_def.mp hc] at hhead
  keys := fun a ha => paired_of_all (List.all_eq_true.mp hkeys a ha)

end

/-- The attributes of an element may stand in any order and be written in any way, and others may
stand among them that loading does not read. -/
theorem load_reworded {settings : Settings} {a name text text' : List Char}
    {xs ys extra : List Attribute} (ha : Outside a) (hname : IsPlain name) (hx : Worded xs text)
    (hy : Worded ys text') (hp : ys.Perm (xs ++ extra))
    (hd : ((xs ++ extra).map Attribute.key).Nodup)
    (hextra : ∀ x ∈ extra, ∀ key ∈ keysRead settings.policy (takenIn (events a).items) name xs,
      x.key ≠ key.toList) (b : List Char) :
    load settings (a ++ (bracketed (name ++ text) ++ b)) =
        load settings (a ++ (bracketed (name ++ text') ++ b)) ∧
      load settings (a ++ (bracketed (name ++ text ++ ['/']) ++ b)) =
        load settings (a ++ (bracketed (name ++ text' ++ ['/']) ++ b)) := by
  have hdx : (xs.map Attribute.key).Nodup := by
    rw [List.map_append] at hd
    exact hd.of_append_left
  have hreads := hx.reads hname hdx
  have hreads' := hy.reads hname ((hp.map _).nodup_iff.mpr hd)
  -- where loading comes to the tag, a group takes in registers just if `takenIn` says so
  have hsteps (p : Progress) (hrun : (Progress.run settings {} (events a).items).result = .ok p) :=
    step_congr hreads.name_eq hreads'.name_eq hreads.attributes_eq hreads'.attributes_eq
      (sameValues_of_perm hp hd ((headed_of_run (nested_events a) hrun).takenIn ▸ hextra))
  constructor
  · obtain ⟨hfault, hstart⟩ := tagEvents_startTag hname hx.passes hx.laid.getLast?_ne
    obtain ⟨hfault', hstart'⟩ := tagEvents_startTag hname hy.passes hy.laid.getLast?_ne
    refine load_exchange ha ⟨hfault, hfault', fun opened => ⟨name :: opened, ?_, ?_⟩⟩
      (fun p hrun => ?_) b
    · rw [hstart, List.foldlM_cons, Event.nest, hreads.name_eq]
      rfl
    · rw [hstart', List.foldlM_cons, Event.nest, hreads'.name_eq]
      rfl
    · simp only [hstart, hstart', Progress.run, (hsteps p hrun).1]
  · obtain ⟨hfault, hempty⟩ := tagEvents_emptyTag hname hx.passes
    obtain ⟨hfault', hempty'⟩ := tagEvents_emptyTag hname hy.passes
    refine load_exchange ha ⟨hfault, hfault', fun opened => ⟨opened, ?_, ?_⟩⟩ (fun p hrun => ?_) b
    · rw [hempty]
      rfl
    · rw [hempty']
      rfl
    · simp only [hempty, hempty', Progress.run, (hsteps p hrun).2]

def fourBits : List Attribute :=
  [⟨"name".toList, ['r']⟩, ⟨"width".toList, ['4']⟩, ⟨"default".toList, ['q']⟩]

def noVector : Attribute := ⟨"int_value".toList, "none".toList⟩

def fourBitsText : List Char := " name='r' width=\"4\" default='q'".toList

def fourBitsReworded : List Char :=
  " int_value='none' default=\"q\"\n\tname = 'r'width='&#52;' ".toList

theorem load_reworded_fourBits :
    Outside "<tv_registers name='g'>".toList ∧ IsPlain registerTag ∧
      Worded fourBits fourBitsText ∧
      Worded (noVector :: fourBits.rotate 2) fourBitsReworded ∧
      (noVector :: fourBits.rotate 2).Perm (fourBits ++ [noVector]) ∧
      ((fourBits ++ [noVector]).map Attribute.key).Nodup ∧
      (load {} ("<tv_registers name='g'>".toList ++
        (bracketed (registerTag ++ fourBitsReworded ++ ['/']) ++
          "</tv_registers>".toList))).result =
          .ok [⟨"g", {}, [⟨"r", 4, 0, .config 0⟩]⟩] := by
  have houtside : Outside "<tv_registers name='g'>".toList := .inl (by decide +kernel)
  have hworded : Worded fourBits fourBitsText :=
    worded_of_readEnd (by decide +kernel) (by decide +kernel) (by decide +kernel)
  have hworded' : Worded (noVector :: fourBits.rotate 2) fourBitsReworded :=
    worded_of_readEnd (by decide +kernel) (by decide +kernel) (by decide +kernel)
  have hperm : (noVector :: fourBits.rotate 2).Perm (fourBits ++ [noVector]) := by decide +kernel
  have hdistinct : ((fourBits ++ [noVector]).map Attribute.key).Nodup := by decide +kernel
  have hload : load {} _ = load {} _ := (load_reworded houtside isPlain_registerTag hworded hworded'
    hperm hdistinct (by decide +kernel) "</tv_registers>".toList).2
  refine ⟨houtside, isPlain_registerTag, hworded, hworded', hperm, hdistinct, ?_⟩
  rw [← hload]
  decide +kernel

end RegMap.Description
