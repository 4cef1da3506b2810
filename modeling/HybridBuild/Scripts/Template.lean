/-!
# Templates of the generated workspace

The generated files are made from fixed texts with placeholders in braces. Braces
that are text are written by their code.
-/
namespace HybridBuild.Scripts

/-- The lines of a text, each ended by a line feed. -/
def unlines (lines : List String) : String := String.join (lines.map (· ++ "\n"))

/-- A placeholder of a template. -/
def placeholder (name : String) : String := "\x7b" ++ name ++ "\x7d"

/-- The workspace file, with the placeholder `workspace`. -/
def workspaceTemplate : String := unlines [
  "local_repository(",
  "    name = \"sourceroot\",",
  "    path = \"\x7bworkspace\x7d\",",
  ")",
  "",
  "local_repository(",
  "    name = \"rules_cc\",",
  "    path = \"\x7bworkspace\x7d/build/bazel/rules_cc\",",
  ")",
  "",
  "local_repository(",
  "    name = \"bazel_skylib\",",
  "    path = \"\x7bworkspace\x7d/build/bazel/bazel_skylib\",",
  ")"]

/-- The rules that the build file uses. -/
def mainBzl : String := unlines [
  "def _config_node_transition_impl(settings, attr):",
  "    return \x7b",
  "        \"//command_line_option:platforms\": " ++
    "\"@sourceroot//build/bazel/platforms:android_%s\" % attr.arch,",
  "    \x7d",
  "",
  "_config_node_transition = transition(",
  "    implementation = _config_node_transition_impl,",
  "    inputs = [],",
  "    outputs = [",
  "        \"//command_line_option:platforms\",",
  "    ],",
  ")",
  "",
  "def _passthrough_rule_impl(ctx):",
  "    return [DefaultInfo(files = depset(ctx.files.deps))]",
  "",
  "config_node = rule(",
  "    implementation = _passthrough_rule_impl,",
  "    attrs = \x7b",
  "        \"arch\": attr.string(mandatory = True),",
  "        \"deps\": attr.label_list(cfg = _config_node_transition),",
  "        \"_allowlist_function_transition\": " ++
    "attr.label(default = \"@bazel_tools//tools/allowlists/function_transition_allowlist\"),",
  "    \x7d,",
  ")",
  "",
  "# Depends on every requested target; building it builds the whole delegated tree.",
  "mixed_build_root = rule(",
  "    implementation = _passthrough_rule_impl,",
  "    attrs = \x7b\"deps\": attr.label_list()\x7d,",
  ")",
  "",
  "def _phony_root_impl(ctx):",
  "    return []",
  "",
  "# Builds nothing, but materializes the symlink forest of its dependencies.",
  "phony_root = rule(",
  "    implementation = _phony_root_impl,",
  "    attrs = \x7b\"deps\": attr.label_list()\x7d,",
  ")"]

/-- The build file, with the placeholders `config_nodes` and
`config_node_labels`. -/
def buildTemplate : String := unlines [
  "load(\":main.bzl\", \"config_node\", \"mixed_build_root\", \"phony_root\")",
  "",
  "\x7bconfig_nodes\x7d",
  "mixed_build_root(name = \"buildroot\",",
  "    deps = [\x7bconfig_node_labels\x7d],",
  ")",
  "",
  "phony_root(name = \"phonyroot\",",
  "    deps = [\":buildroot\"],",
  ")"]

/-- The node of one architecture, with the placeholders `arch` and `labels`. -/
def configNodeTemplate : String := unlines [
  "config_node(name = \"\x7barch\x7d\",",
  "    arch = \"\x7barch\x7d\",",
  "    deps = [\x7blabels\x7d],",
  ")"]

/-- The table and the function of a query kind, with the placeholders `kind`, `ids`
and `body`. -/
def queryKindTemplate : String := unlines [
  "\x7bkind\x7d_Labels = \x7b",
  "\x7bids\x7d\x7d",
  "",
  "def \x7bkind\x7d_Fn(target):",
  "\x7bbody\x7d"]

/-- The use of a query kind, with the placeholder `kind`. -/
def queryDispatchTemplate : String := unlines [
  "  if id_string in \x7bkind\x7d_Labels:",
  "    results.append(id_string + \">>\x7bkind\x7d>>\" + \x7bkind\x7d_Fn(target))"]

/-- The query script, with the placeholders `kinds` and `dispatch`. -/
def cqueryTemplate : String := unlines [
  "\x7bkinds\x7d",
  "def get_arch(target):",
  "  platforms = build_options(target)[\"//command_line_option:platforms\"]",
  "  if len(platforms) != 1:",
  "    # Each configured target has exactly one platform; the same label under",
  "    # another architecture is a separate configured target.",
  "    fail(\"expected exactly 1 platform for \" + str(target.label) + " ++
    "\" but got \" + str(platforms))",
  "  platform_name = platforms[0].name",
  "  if platform_name == \"host\":",
  "    return \"HOST\"",
  "  elif not platform_name.startswith(\"android_\"):",
  "    fail(\"expected platform name of the form 'android_<arch>', but was \" + " ++
    "str(platforms))",
  "    return \"UNKNOWN\"",
  "  return platform_name[len(\"android_\"):]",
  "",
  "def format(target):",
  "  id_string = str(target.label) + \"|\" + get_arch(target)",
  "  results = []",
  "\x7bdispatch\x7d",
  "  if not results:",
  "    return id_string + \">>NONE\"",
  "  return \"\\n\".join(results)"]

end HybridBuild.Scripts
