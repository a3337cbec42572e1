import DataBinding.Script.Syntax

/-!
# Keywords

The word that stands for each step, in a script and in the log of a run.
-/

namespace DataBinding

def ObjectAction.keyword : ObjectAction → String
  | get .. => "get"
  | fetch .. => "fetch"
  | keys .. => "keys"
  | has .. => "has"
  | same .. => "same"
  | reactive .. => "reactive"
  | dump .. => "dump"
  | resolve .. => "resolve"
  | render .. => "render"
  | path .. => "path"

def TrackingAction.keyword : TrackingAction → String
  | dropSubscriber .. => "sub_drop"
  | newDependency .. => "dep_new"
  | dependencyOf .. => "dep"
  | register .. => "register"
  | unregister .. => "unregister"
  | notify .. => "notify"
  | count .. => "dep_len"
  | sameDependency .. => "dep_eq"
  | evaluating => "evaluating"
  | enter .. => "enter"
  | finish .. => "finish"
  | abandon .. => "eval_drop"

def WatcherAction.keyword : WatcherAction → String
  | info .. => "winfo"
  | update .. => "update"
  | dispose .. => "wdispose"
  | drop .. => "wdrop"
  | share .. => "wclone"

def NodeAction.keyword : NodeAction → String
  | element .. => "element"
  | text .. => "text"
  | fragment .. => "fragment"
  | parse .. => "parse"
  | child .. => "child"
  | firstChild .. => "first_child"
  | parent .. => "parent"
  | tree .. => "tree"
  | kind .. => "kind"
  | same .. => "node_eq"
  | append .. => "append"
  | remove .. => "remove"
  | takeChildren .. => "take_children"
  | getAttribute .. => "attr"
  | setAttribute .. => "set_attr"
  | textContent .. => "text_content"
  | innerMarkup .. => "html"
  | outerMarkup .. => "outer"
  | value .. => "value"
  | listeners .. => "listeners"
  | setText .. => "set_text"
  | setMarkup .. => "set_html"
  | setValue .. => "set_value"
  | unlisten .. => "unlisten"
  | dispatch .. => "dispatch"
  | input .. => "input"

def BindingAction.keyword : BindingAction → String
  | hasMethod .. => "cx_has"
  | read .. => "cx_get"
  | call .. => "cx_call"
  | compile .. => "compile"
  | view .. => "view"
  | viewWatcher .. => "view_watcher"
  | disposeView .. => "view_dispose"
  | dropView .. => "view_drop"
  | model .. => "vm"
  | readModel .. => "vm_get"
  | callModel .. => "vm_call"
  | unmount .. => "unmount"
  | dropModel .. => "vm_drop"
  | inspect .. => "debug"

def Step.keyword : Step → String
  | note .. => "note"
  | newObject .. => "obj"
  | set .. => "set"
  | observe .. => "observe"
  | define .. => "computed"
  | assign .. => "assign"
  | assignSelf .. => "self_set"
  | subscriber .. => "sub"
  | watch .. => "watch"
  | listen .. => "listen"
  | context .. => "context"
  | extend .. => "with_method"
  | assignContext .. => "cx_set"
  | mount .. => "mount"
  | assignModel .. => "vm_set"
  | object action => action.keyword
  | tracking action => action.keyword
  | watcher action => action.keyword
  | node action => action.keyword
  | binding action => action.keyword

end DataBinding
