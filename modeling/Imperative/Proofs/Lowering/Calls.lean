import Imperative.Proofs.Accepted
import Imperative.Proofs.Lowering.Sites

/-!
# Calls reach the routines they name

The numbers of functions are given out before any body is lowered, and the functions are added
later, in the order of the same declarations.
-/

namespace Imperative.Lowering

open Typing (Declared)
open Wasm (Code Function Module)

theorem declareLocal_defines (ofInit : Grants (initialValue env decl.initial) property) :
    Grants (declareLocal env decl) fun res => ∃ val type storage, property val ∧
      declaredType env decl.span decl.name decl.type (val.map Prod.snd) = .ok type ∧
      res.2 = env.defineVariable decl.name type storage := by
  obtain ⟨span, name, declared, init⟩ := decl
  refine ofInit.inFrame.bind fun val holds => ?_
  refine .compute fun type isType => ?_
  refine .ite (fun _ => ?_) fun _ => ?_
  all_goals
    iterate 2 refine .skip fun _ => ?_
    exact .pure ⟨val, type, _, holds, isType, rfl⟩

theorem bindParameters_keeps {Holds : Environment → Prop} (defines : ∀ env param storage,
      param ∈ params → Holds env → Holds (env.defineVariable param.1.name param.2 storage))
    (holds : Holds env) : Grants (bindParameters env index params) fun res => Holds res.2 := by
  induction params generalizing env index with
  | nil => exact .pure holds
  | cons first rest ih =>
    refine .skip fun (_, storage) => ?_
    have inner := defines _ first storage List.mem_cons_self holds
    refine Grants.bind (ih (fun _ _ _ mem => defines _ _ _ (List.mem_cons_of_mem _ mem)) inner) ?_
    exact fun _ holds => .pure holds

theorem addGlobals_keeps {Holds : Environment → Prop}
    (defines : ∀ env (decl : VarDecl) type storage,
      globalType env decl.span decl.name decl.type decl.initial = .ok type → Holds env →
        Holds (env.defineVariable decl.name type storage))
    (holds : Holds st.environment) (isOk : addGlobals st decls = .ok post) :
    Holds post.environment := by
  induction decls generalizing st with
  | nil =>
    cases isOk
    exact holds
  | cons declaration rest ih =>
    cases declaration with
    | type | routine => exact ih holds isOk
    | var decl =>
      obtain ⟨mid, isAdded, isRest⟩ := except_bind_ok.mp isOk
      refine ih ?_ isRest
      rcases addGlobal_ok isAdded with ⟨type, isType, ⟨-, -, _, sameEnv⟩ | ⟨-, -, sameEnv⟩⟩
      · exact sameEnv ▸ defines _ decl type _ isType holds
      · exact sameEnv ▸ defines _ decl type _ isType holds

theorem addGlobals_routines (isOk : addGlobals st decls = .ok post) :
    post.environment.routines = st.environment.routines :=
  @addGlobals_keeps _ _ _ (·.routines = st.environment.routines) (fun _ _ _ _ _ same => same) rfl
    isOk

theorem Lowers.routines (lowers : Lowers site next) : next.1.routines = site.1.routines := by
  cases lowers with
  | afterVariable isDeclared =>
    obtain ⟨_, type, storage, -, -, isNext⟩ := declareLocal_defines .any _ _ _ isDeclared
    exact (congrArg Environment.routines isNext :)
  | _ => rfl

theorem Starts.routines (starts : Starts options program site) :
    site.1.routines = (Globals.start program).environment.routines := by
  cases starts with
  | inferred _ isAdded | deferred isAdded => exact addGlobals_routines isAdded
  | @body st _ _ _ _ _ _ _ isAdded _ _ _ isBound =>
    rw [← addGlobals_routines isAdded]
    exact @bindParameters_keeps _ _ _ (·.routines = st.environment.routines)
      (fun _ _ _ _ same => same) (by rfl) _ _ _ isBound

theorem LowersAt.routines (lowers : LowersAt options program env value) :
    env.routines = (Globals.start program).environment.routines := by
  obtain ⟨start, starts, reaches⟩ := lowers
  rw [← starts.routines]
  suffices ∀ site, Relation.ReflTransGen Lowers start site → site.1.routines = start.1.routines from
    this _ reaches
  intro site reaches
  induction reaches with
  | refl => rfl
  | tail _ lowers ih => exact lowers.routines.trans ih

section Accepted

variable {options : Options} {module : Module} {st : Globals} {names : Typing.Context}

end Accepted

end Imperative.Lowering
