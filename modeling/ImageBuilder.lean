import ImageBuilder.RootfsSequential
import ImageBuilder.RootfsLive
import ImageBuilder.RootfsExclusive
import ImageBuilder.RootfsProgress
import ImageBuilder.Containerfile
import ImageBuilder.VmBuildScript
import ImageBuilder.RootfsCacheRules
import ImageBuilder.NameserverHandoff
import ImageBuilder.ContainerBuild
import ImageBuilder.CommandLine
import ImageBuilder.VmImageBuild
import ImageBuilder.VmOutcome
import ImageBuilder.Backends
import ImageBuilder.RootfsReclaim
import ImageBuilder.MappedAddresses
import ImageBuilder.OutputPath
import ImageBuilder.ContextFiles
import ImageBuilder.EmbeddedArchive
import ImageBuilder.ProgramRefinement
import ImageBuilder.RootfsWaitFree
import ImageBuilder.RootfsHistory
