import Spruce.Text.Basic

/-!
# What belongs to a project

The files of a project that are read or edited are known by their extensions. Directories of
dependencies and of build output are known by pieces of their paths.
-/

namespace Spruce.Project

/-- The extensions of source files. -/
def sourceExtensions : List Text :=
  ["ts".toList, "tsx".toList, "mts".toList, "cts".toList, "js".toList, "jsx".toList, "mjs".toList,
    "cjs".toList, "vue".toList]

/-- The pieces of paths, relative to the root, that mark files which are not part of the
project's own sources. -/
def foreignMarkers : List Text :=
  ["node_modules/".toList, ".nuxt/".toList, ".output/".toList, "dist/".toList,
    "coverage/".toList, ".git/".toList]

end Spruce.Project
