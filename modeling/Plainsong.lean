import Plainsong.Chant.Property
import Plainsong.Grammar.Sample
import Plainsong.Grammar.Script.Session
import Plainsong.Main
import Plainsong.Proofs.Abc.Dealing
import Plainsong.Proofs.Abc.FreeStrings
import Plainsong.Proofs.Abc.Interleaving
import Plainsong.Proofs.Abc.Lengths
import Plainsong.Proofs.Abc.Reduction
import Plainsong.Proofs.Abc.SlurNumbers
import Plainsong.Proofs.Abc.Tuplets
import Plainsong.Proofs.Chant.Ambitus
import Plainsong.Proofs.Chant.Engraving
import Plainsong.Proofs.Chant.LyricSlots
import Plainsong.Proofs.Chant.Repercussion
import Plainsong.Proofs.Chant.Retrying
import Plainsong.Proofs.Chant.Slurs
import Plainsong.Proofs.Chant.Sounding
import Plainsong.Proofs.Chant.Transcript
import Plainsong.Proofs.Chant.Underlay
import Plainsong.Proofs.Grammar.Alternatives
import Plainsong.Proofs.Grammar.Words
import Plainsong.Proofs.Midi.Alternation
import Plainsong.Proofs.Midi.Contents
import Plainsong.Proofs.Midi.FailedWrite
import Plainsong.Proofs.Midi.Quantities
