import DescriptorCheck.Check.Chain
import DescriptorCheck.Config
import DescriptorCheck.Document.Load

set_option autoImplicit false

namespace DescriptorCheck

structure Checker where
  elements : Array Element
  matching : Matching
  files : Surroundings
  descriptor : String

namespace Checker

/-- A checker with usual settings, which looks for modules in the working directory. -/
def ofDocument (d : Document) (files : FileTree) : Checker :=
  ⟨d.elements.toArray, .usual, files.surroundings Config.usual.moduleRoot,
    Config.usual.moduleDescriptor⟩

def withConfig (c : Checker) (config : Config) (files : FileTree) : Checker :=
  { c with
    matching := config.pathMatching
    files := files.surroundings config.moduleRoot
    descriptor := config.moduleDescriptor }

def withMatching (c : Checker) (matching : Matching) : Checker := { c with matching }

def withSurroundings (c : Checker) (files : Surroundings) : Checker := { c with files }

def load (files : FileTree) (path : String) (config : Config) : Except LoadError Checker := do
  let d ← Document.load files path
  return (ofDocument d files).withConfig config files

def checking (c : Checker) (node : String) : Query := .start node c.elements c.matching

def checkingModule (c : Checker) : ModuleQuery :=
  ⟨.start modulesNode c.elements c.matching, c.files, c.descriptor, []⟩

end Checker

end DescriptorCheck
