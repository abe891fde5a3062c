import CaraOS.Carafs.Dir

namespace CaraOS.Dos

/-!
# Paths

The two resolvers of `handler.c`.  A path is the bytes of a C string before
its end; a null pointer is the empty path.  `dos_resolve` goes down the whole
path and `dos_resolve_parent` stops before the last component, which it copies
into a buffer of the caller.

Both make the same lookups one after the other, so that they are compared as
actions on the mounted volume: cache and device are in the same state when the
last component is looked up.
-/

open Action (bind_of_error bind_of_ok)
open Carafs List

/-- What follows the first colon, if there is one. -/
def afterVolume (path : List UInt8) : Option (List UInt8) :=
  match path.dropWhile (· != 58) with
  | [] => none
  | _ :: rest => some rest

/-- `cur` and `p` after the search for a colon. -/
def start (root base : Nat) (path : List UInt8) : Nat × List UInt8 :=
  match afterVolume path with
  | none => (base, path)
  | some rest => (root, rest)

/--
One turn of both loops: the bytes up to the next slash, as many as the `u32`
`len` counts, and what comes behind the slash.
-/
def nextComponent (p : List UInt8) : List UInt8 × List UInt8 :=
  let text := p.takeWhile (· != 47)
  (text.take (text.length % 2 ^ 32), (p.dropWhile (· != 47)).drop 1)

theorem nextComponent_lt
    (c : UInt8)
    (p : List UInt8) :
    (nextComponent (c :: p)).2.length < (c :: p).length := by
  have shorter := (dropWhile_suffix (fun x => x != 47) (l := c :: p)).length_le
  simp only [nextComponent, length_drop, length_cons] at *
  omega

section Resolve

variable (hash : List UInt8 → Nat)

/-- `Carafs_DirLookup`; every error becomes `CARA_ENOENT`. -/
def lookupOrEnoent (dir : Nat) (name : List UInt8) : M (Nat × CnodeType) :=
  fun m =>
    match carafsDirLookup hash dir name m with
    | (.ok found, after) => (.ok found, after)
    | (.error _, after) => (.error .enoent, after)

/-- The loop of `dos_resolve`. -/
def resolveLoop (cur : Nat) (last : List UInt8) :
    List UInt8 → M (Nat × List UInt8)
  | [] => pure (cur, last)
  | c :: p =>
    if (nextComponent (c :: p)).1 = [] then
      resolveLoop cur last (nextComponent (c :: p)).2
    else do
      let child ← lookupOrEnoent hash cur (nextComponent (c :: p)).1
      resolveLoop child.1 (nextComponent (c :: p)).1
        (nextComponent (c :: p)).2
termination_by p => p.length
decreasing_by all_goals exact nextComponent_lt c p

/-- `dos_resolve`: the object, and what is copied into `namebuf`. -/
def dosResolve (base : Nat) (path : List UInt8) (namecap : Nat) :
    M (Nat × List UInt8) := do
  let m ← Action.read
  let found ← resolveLoop hash (start m.sb.rootCnode base path).1 []
    (start m.sb.rootCnode base path).2
  return (found.1, found.2.take (namecap - 1))

/-- The loop of `dos_resolve_parent`; `pend` is the pending component. -/
def parentLoop (cur : Nat) (pend : Option (List UInt8)) :
    List UInt8 → M (Nat × Option (List UInt8))
  | [] => pure (cur, pend)
  | c :: p =>
    if (nextComponent (c :: p)).1 = [] then
      parentLoop cur pend (nextComponent (c :: p)).2
    else
      match pend with
      | none =>
        parentLoop cur (some (nextComponent (c :: p)).1)
          (nextComponent (c :: p)).2
      | some dir => do
          let child ← lookupOrEnoent hash cur dir
          parentLoop child.1 (some (nextComponent (c :: p)).1)
            (nextComponent (c :: p)).2
termination_by p => p.length
decreasing_by all_goals exact nextComponent_lt c p

/-- `dos_resolve_parent`: the directory, and what is copied into `name`. -/
def dosResolveParent (base : Nat) (path : List UInt8) (cap : Nat) :
    M (Nat × List UInt8) := do
  let m ← Action.read
  let found ← parentLoop hash (start m.sb.rootCnode base path).1 none
    (start m.sb.rootCnode base path).2
  match found.2 with
  | none => Action.fail .einval
  | some name => return (found.1, name.take (cap - 1))

/-! ## The components -/

/-- The components that are not empty. -/
def components : List UInt8 → List (List UInt8)
  | [] => []
  | c :: p =>
    if (nextComponent (c :: p)).1 = [] then
      components (nextComponent (c :: p)).2
    else
      (nextComponent (c :: p)).1 :: components (nextComponent (c :: p)).2
termination_by p => p.length
decreasing_by all_goals exact nextComponent_lt c p

/-- The components behind the volume name. -/
def pathComponents (path : List UInt8) : List (List UInt8) :=
  components ((afterVolume path).getD path)

/-- The last component of a path, empty if there is none. -/
def finalComponent (path : List UInt8) : List UInt8 :=
  (pathComponents path).getLastD []

/-- Look up one component after the other. -/
def descend (cur : Nat) : List (List UInt8) → M Nat
  | [] => pure cur
  | name :: rest => do
      let child ← lookupOrEnoent hash cur name
      descend child.1 rest

variable {hash}

theorem descend_append
    (hash : List UInt8 → Nat)
    (cur : Nat)
    (names : List (List UInt8))
    (name : List UInt8) :
    descend hash cur (names ++ [name]) = do
      let dir ← descend hash cur names
      let child ← lookupOrEnoent hash dir name
      return child.1 := by
  induction names generalizing cur with
  | nil => rfl
  | cons first names ih =>
    simp only [cons_append, descend, ih, Action.bind_assoc]

/-- `dos_resolve` looks up every component. -/
theorem resolveLoop_eq
    (cur : Nat)
    (last p : List UInt8) :
    resolveLoop hash cur last p = do
      let found ← descend hash cur (components p)
      return (found, (components p).getLastD last) := by
  induction p using components.induct generalizing cur last with
  | case1 => simp [resolveLoop, components, descend]; rfl
  | case2 c p empty ih =>
    rw [resolveLoop, components, if_pos empty, if_pos empty]
    exact ih cur last
  | case3 c p some ih =>
    rw [resolveLoop, components, if_neg some, if_neg some]
    simp only [ih, descend, Action.bind_assoc, getLastD_cons]

theorem parentLoop_pending
    (cur : Nat)
    (pend p : List UInt8) :
    parentLoop hash cur (some pend) p = do
      let dir ← descend hash cur (pend :: components p).dropLast
      return (dir, some ((components p).getLastD pend)) := by
  induction p using components.induct generalizing cur pend with
  | case1 => simp [parentLoop, components, descend]; rfl
  | case2 c p empty ih =>
    rw [parentLoop, components, if_pos empty, if_pos empty]
    exact ih cur pend
  | case3 c p some ih =>
    rw [parentLoop, components, if_neg some, if_neg some]
    simp only [ih, dropLast_cons_cons, descend, Action.bind_assoc, getLastD_cons]

/-- `dos_resolve_parent` looks up every component but the last. -/
theorem parentLoop_eq
    (cur : Nat)
    (p : List UInt8)
    (some : components p ≠ []) :
    parentLoop hash cur none p = do
      let dir ← descend hash cur (components p).dropLast
      return (dir, Option.some ((components p).getLastD [])) := by
  induction p using components.induct with
  | case1 => simp [components] at some
  | case2 c p empty ih =>
    rw [components, if_pos empty] at some ⊢
    rw [parentLoop, if_pos empty]
    exact ih some
  | case3 c p named ih =>
    rw [parentLoop, components, if_neg named, if_neg named, getLastD_cons]
    exact parentLoop_pending cur _ _

theorem parentLoop_nil
    (cur : Nat)
    (p : List UInt8)
    (none_ : components p = []) :
    parentLoop hash cur none p = pure (cur, none) := by
  induction p using components.induct with
  | case1 => simp [parentLoop]
  | case2 c p empty ih =>
    rw [components, if_pos empty] at none_
    rw [parentLoop, if_pos empty]
    exact ih none_
  | case3 c p named ih =>
    rw [components, if_neg named] at none_
    nomatch none_

theorem components_ne_nil (p : List UInt8) : ∀ name ∈ components p, name ≠ [] := by
  induction p using components.induct with
  | case1 => simp [components]
  | case2 c p empty ih =>
    rwa [components, if_pos empty]
  | case3 c p some ih =>
    rw [components, if_neg some]
    exact forall_mem_cons.mpr ⟨some, ih⟩

/-! ## Both resolvers -/

/-- What both resolvers do on a volume. -/
inductive Outcome (hash : List UInt8 → Nat) (base : Nat) (path : List UInt8)
    (m : Mount) : Prop where
  | nothing
      (none : finalComponent path = [])
      (whole : ∃ dir, dosResolve hash base path 108 m = (.ok (dir, []), m))
      (parent : dosResolveParent hash base path 256 m = (.error .einval, m))
  | missing
      (code : Err)
      (mid : Mount)
      (down : descend hash (start m.sb.rootCnode base path).1 (pathComponents path).dropLast m =
          (.error code, mid))
      (whole : dosResolve hash base path 108 m = (.error code, mid))
      (parent : dosResolveParent hash base path 256 m = (.error code, mid))
  | reached
      (dir : Nat)
      (mid : Mount)
      (down : descend hash (start m.sb.rootCnode base path).1 (pathComponents path).dropLast m =
          (.ok dir, mid))
      (some : finalComponent path ≠ [])
      (parent : dosResolveParent hash base path 256 m =
          (.ok (dir, (finalComponent path).take nameMax), mid))
      (whole : dosResolve hash base path 108 m =
          ((lookupOrEnoent hash dir (finalComponent path) mid).1.map
              fun child => (child.1, (finalComponent path).take 107),
            (lookupOrEnoent hash dir (finalComponent path) mid).2))

theorem outcome
    (base : Nat)
    (path : List UInt8)
    (m : Mount) :
    Outcome hash base path m := by
  have rest (root : Nat) : components (start root base path).2 = pathComponents path := by
    unfold start pathComponents
    cases afterVolume path <;> rfl
  have isRead : (Action.read : M Mount) m = (.ok m, m) := rfl
  have isWhole : dosResolve hash base path 108 m = _ := bind_of_ok isRead
  have isParent : dosResolveParent hash base path 256 m = _ := bind_of_ok isRead
  rw [resolveLoop_eq, rest, Action.bind_assoc] at isWhole
  by_cases isList : pathComponents path = []
  · rw [parentLoop_nil _ _ (by rwa [rest])] at isParent
    rw [isList] at isWhole
    exact .nothing (by rw [finalComponent, isList]; rfl) ⟨_, isWhole⟩ isParent
  · rw [parentLoop_eq _ _ (by rwa [rest]), rest, Action.bind_assoc] at isParent
    have split : (pathComponents path).dropLast ++ [finalComponent path] = pathComponents path := by
      rw [finalComponent, getLastD_eq_getLast?, getLast?_eq_some_getLast isList]
      exact dropLast_concat_getLast isList
    have all := descend_append hash (start m.sb.rootCnode base path).1
      (pathComponents path).dropLast (finalComponent path)
    rw [split] at all
    rw [all, Action.bind_assoc] at isWhole
    cases down : descend hash (start m.sb.rootCnode base path).1
        (pathComponents path).dropLast m with
    | mk result mid =>
    cases result with
    | error code =>
      exact .missing code mid down (isWhole.trans (bind_of_error down))
        (isParent.trans (bind_of_error down))
    | ok dir =>
      have some : finalComponent path ≠ [] := by
        refine components_ne_nil ((afterVolume path).getD path) _ ?_
        rw [← pathComponents, ← split]
        exact mem_append_right _ mem_cons_self
      refine .reached dir mid down some (isParent.trans (bind_of_ok down)) ?_
      rw [isWhole, bind_of_ok down, Action.bind_assoc]
      cases looked : lookupOrEnoent hash dir (finalComponent path) mid with
      | mk answer after =>
      cases answer with
      | error code => exact bind_of_error looked
      | ok child => exact bind_of_ok looked

end Resolve

variable {hash : List UInt8 → Nat}

theorem carafsDirLookup_long
    {name : List UInt8}
    (long : nameMax < name.length)
    (dir : Nat)
    (m : Mount) :
    carafsDirLookup hash dir name m = (.error .einval, m) := by
  have invalid : nameValid name = false := by
    simp [nameValid, Nat.not_le.mpr long]
  unfold carafsDirLookup
  rw [invalid]
  rfl

theorem lookup_shown
    {dir o : Nat}
    {name shown : List UInt8}
    {m : Mount}
    (some : shown ≠ []) :
    (∃ name' after, name' ≠ [] ∧
      ((lookupOrEnoent hash dir name m).1.map fun child => (child.1, shown),
        (lookupOrEnoent hash dir name m).2) = (.ok (o, name'), after)) ↔
      ∃ type, (carafsDirLookup hash dir name m).1 = .ok (o, type) := by
  unfold lookupOrEnoent
  cases looked : carafsDirLookup hash dir name m with
  | mk answer after =>
  cases answer with
  | error code => simp [Except.map]
  | ok child =>
    obtain ⟨cnode, type⟩ := child
    simp [Except.map, some]

/--
The resolvers agree exactly if the last component is a name that fits into the
buffer, or else nothing is found under its first 255 bytes in the directory
that the other components lead to.
-/
theorem resolvers_agree_iff
    (hash : List UInt8 → Nat)
    (base : Nat)
    (path : List UInt8)
    (m : Mount) :
    (∀ o, (∃ name after, name ≠ [] ∧ dosResolve hash base path 108 m = (.ok (o, name), after)) ↔
      ∃ dir name type mid,
        dosResolveParent hash base path 256 m = (.ok (dir, name), mid) ∧
          (carafsDirLookup hash dir name mid).1 = .ok (o, type)) ↔
    (nameMax < (finalComponent path).length → ∀ dir mid,
        descend hash (start m.sb.rootCnode base path).1 (pathComponents path).dropLast m =
            (.ok dir, mid) →
          ∀ found,
            (carafsDirLookup hash dir ((finalComponent path).take nameMax) mid).1 ≠
              .ok found) := by
  rcases @outcome hash base path m with ⟨none_, ⟨dir, whole⟩, parent⟩ |
    ⟨code, mid, down, whole, parent⟩ | ⟨dir, mid, down, some, parent, whole⟩
  · simp [none_, whole, parent]
  · simp [down, whole, parent]
  · have shown : (finalComponent path).take 107 ≠ [] := by
      simpa using some
    have found (o : Nat) : (∃ dir' name type mid',
          dosResolveParent hash base path 256 m = (.ok (dir', name), mid') ∧
            (carafsDirLookup hash dir' name mid').1 = .ok (o, type)) ↔
          ∃ type, (carafsDirLookup hash dir
            ((finalComponent path).take nameMax) mid).1 = .ok (o, type) := by
      rw [parent]
      constructor
      · rintro ⟨dir', name, type, mid', same, isFound⟩
        obtain ⟨isParent, rfl⟩ := Prod.mk.inj same
        cases isParent
        exact ⟨type, isFound⟩
      · rintro ⟨type, isFound⟩
        exact ⟨dir, _, type, mid, rfl, isFound⟩
    simp only [found, whole, lookup_shown shown]
    rcases Nat.lt_or_ge nameMax (finalComponent path).length with long | short
    · -- `dos_resolve` refuses the name, so nothing may be found
      simp only [carafsDirLookup_long long dir mid, down, long, reduceCtorEq,
        exists_false, false_iff, not_exists, true_implies]
      constructor
      · rintro nothing _ _ ⟨⟩ looked isFound
        exact nothing looked.1 looked.2 isFound
      · intro nothing o type isFound
        exact nothing dir mid rfl (o, type) isFound
    · rw [take_of_length_le short]
      simp [Nat.not_lt.mpr short]

/-! ## A name that does not fit -/

/-- A directory with one file, whose name has all 255 bytes. -/
def longNameRoot : Cnode where
  blockNo := 2051
  generation := 1
  type := .dir
  linkCount := 1
  items := [{
    kind := .inlineDirents
    payload := .dirents [{
      hash := nameHash (List.replicate 255 97)
      cnode := 2052
      type := .file
      seq := 0
      name := List.replicate 255 97 }] }]

/-- The volume, with the directory in its cache. -/
def longNameVolume : Mount where
  bdev := {
    blockSize := 4096
    nBlocks := 3000
    disk := fun _ => zeroBlock 4096 }
  blockSize := 4096
  mounted := true
  sb := { zeroSb with rootCnode := 2051 }
  sbAtTxn := zeroSb
  ents := [{ block := some 2051, data := .cnode longNameRoot }]
  lru := [0]

/--
A path of 256 bytes names nothing for `dos_resolve`; for the other resolver it
names the file with the first 255 of them.
-/
theorem long_name_names_another_file :
    (dosResolve nameHash 2051 (List.replicate 256 97) 108 longNameVolume).1 = .error .enoent ∧
      (dosResolveParent nameHash 2051 (List.replicate 256 97) 256
        longNameVolume).1 = .ok (2051, List.replicate 255 97) ∧
      (carafsDirLookup nameHash 2051 (List.replicate 255 97)
        (dosResolveParent nameHash 2051 (List.replicate 256 97) 256
          longNameVolume).2).1 = .ok (2052, .file) :=
  ⟨by decide +kernel, by decide +kernel, by decide +kernel⟩

end CaraOS.Dos
